import PeakLang.Proofs.Analysis.Closed
import PeakLang.Proofs.Scope.Balanced

namespace PeakLang

/-- The names that a statement declares in its scope. -/
def Tree.Stmt.declares : Tree.Stmt → List Text
  | .declare name _ _ _ => [name]
  | .function decl => [decl.name]
  | .cls name _ _ _ => [name]
  | _ => []

namespace Analysis

variable {α β : Type} {names names' : List Text}

/-- An analysis that leaves the scopes balanced wherever it starts and however it ends, and declares at
most some names. -/
def Settles (names : List Text) (m : Analyze α) : Prop :=
  ∀ s : State, s.scopes.Linked → 0 < s.scopes.current → s.scopes.Balanced names (m s).2.scopes

namespace Settles

theorem pure (a : α) : Settles names (Pure.pure a) := fun _ hs _ => .refl hs names

theorem reading (g : State → Except SemanticError α) : Settles names (reading g) := by
  intro s hs _
  rw [reading_run]
  exact .refl hs names

theorem fresh : Settles names fresh := fun _ hs _ => .refl hs names

theorem register (c : Class) : Settles names (register c) := fun _ hs _ => .refl hs names

variable {m : Analyze α}

theorem bind {k : α → Analyze β} (h : Settles names m) (hk : ∀ a, Settles names' (k a)) :
    Settles (names ++ names') (m >>= k) := by
  intro s hs hpositive
  have hfirst := h s hs hpositive
  rw [bind_run]
  generalize m s = first at hfirst ⊢
  obtain ⟨x, t⟩ := first
  cases x with
  | error e => exact hfirst.mono (List.sublist_append_left names names')
  | ok a => exact hfirst.trans (hk a t hfirst.linked (hfirst.current ▸ hpositive))

/-- Work that declares nothing, before other work. -/
theorem before {k : α → Analyze β} (h : Settles [] m) (hk : ∀ a, Settles names (k a)) :
    Settles names (m >>= k) := .bind h hk

/-- Work that declares nothing, after other work. -/
theorem after {k : α → Analyze β} (h : Settles names m) (hk : ∀ a, Settles [] (k a)) :
    Settles names (m >>= k) := by
  have hboth := h.bind hk
  rwa [List.append_nil] at hboth

theorem declare (name : Text) (e : Entity) (pos : Pos) : Settles [name] (declare name e pos) := by
  intro s hs _
  rw [declare_run]
  by_cases hfound : (s.scopes.findLocal? name).isSome = true
  · rw [Scopes.add?, if_pos hfound]
    exact .refl hs _
  · rw [Scopes.add?, if_neg hfound]
    exact .bind hs (by simpa using hfound) e

theorem declareVariable (name : Text) (type : Ty) (readOnly : Bool) (pos : Pos) :
    Settles [name] (declareVariable name type readOnly pos) :=
  .before .fresh fun _ => .after (.declare name _ pos) fun _ => .pure _

theorem declareParams (params : List Tree.Param) (types : List Ty) :
    Settles (params.map Tree.Param.name) (declareParams params types) := by
  induction params generalizing types with
  | nil => exact .pure _
  | cons p params ih =>
    cases types with
    | nil => exact .pure _
    | cons type types =>
      exact .bind (.declareVariable p.name type false p.pos) fun _ =>
        .after (ih types) fun _ => .pure _

/-- The name of a function is declared once, also if its signature is not found. -/
theorem declareFunction (name : Text) (params : List Tree.Param) (result : Option TypeExpr) (pos : Pos) :
    Settles [name] (declareFunction name params result pos) := by
  intro s hs hpositive
  refine before .fresh (fun id => ?_) s hs hpositive
  intro t ht _
  rw [bind_run, declare_run]
  by_cases hfound : (t.scopes.findLocal? name).isSome = true
  · rw [Scopes.add?, if_pos hfound]
    exact .refl ht _
  have hnew : t.scopes.findLocal? name = none := by simpa using hfound
  rw [Scopes.add?, if_neg hfound]
  change Scopes.Balanced [name] t.scopes ((Analysis.reading _ >>= _ : Analyze _) _).2.scopes
  rw [bind_run, reading_run]
  cases signature (t.scopes.bind name (.function ⟨id, name, none, false⟩)) params result with
  | error e => exact .bind ht hnew _
  | ok sig =>
    have hagain := Scopes.Balanced.bind ht hnew (.function ⟨id, name, some sig, false⟩)
    rw [← Scopes.bind_bind _ _ (.function ⟨id, name, none, false⟩)] at hagain
    exact hagain

theorem declareClass (name : Text) (fields : List Tree.Field) (methods : List Tree.Func) (pos : Pos) :
    Settles [name] (declareClass name fields methods pos) := by
  refine .before .fresh fun _ => .after (.declare name _ pos) fun _ => ?_
  refine .before (.reading _) fun _ => .before (.reading _) fun _ => ?_
  exact .before (.register _) fun _ => .pure _

/-- The state after the work inside a scope, from where the scope is left. -/
theorem pop?_within (h : Settles names m) (o : Scope.Overrides) {s : State} (hs : s.scopes.Linked)
    (hpositive : 0 < s.scopes.current) :
    (m (s.enter o)).2.scopes.pop? =
      some { (m (s.enter o)).2.scopes with current := s.scopes.current } := by
  have hinside := h (s.enter o) (hs.push o) (Nat.lt_trans hpositive hs.current)
  exact hinside.keeps.grows.pop? hpositive

theorem within (h : Settles names m) (o : Scope.Overrides) :
    Settles names' (within o m) := by
  intro s hs hpositive
  have hinside := h (s.enter o) (hs.push o) (Nat.lt_trans hpositive hs.current)
  have hleave : (Analysis.within o m s).2.scopes =
      { (m (s.enter o)).2.scopes with current := s.scopes.current } := by
    change (m (s.enter o)).2.scopes.pop?.getD _ = _
    rw [h.pop?_within o hs hpositive]
    rfl
  rw [hleave]
  exact (hinside.within hs).mono (List.nil_sublist _)

end Settles

/-- Statements in a scope of their own, with the variables that are declared there first. -/
inductive Body where
  | block (o : Scope.Overrides) (body : List Tree.Stmt)
  | function (params : List Tree.Param) (sig : Signature) (o : Scope.Overrides) (body : List Tree.Stmt)
  | forEach (name : Text) (base : Ty) (collection : Typed.Expr) (pos : Pos) (body : List Tree.Stmt)

namespace Body

/-- What the scope of a body sets. -/
def overrides : Body → Scope.Overrides
  | block o _ | function _ _ o _ => o
  | forEach _ _ _ _ _ => .ofLoop

def statements : Body → List Tree.Stmt
  | block _ body | function _ _ _ body | forEach _ _ _ _ body => body

/-- What the analysis of a body yields. -/
def Result : Body → Type
  | block _ _ => List Typed.Stmt
  | function _ _ _ _ => List (Option Variable) × List Typed.Stmt
  | forEach _ _ _ _ _ => Typed.Stmt

def inside : (b : Body) → Analyze b.Result
  | block _ body => Analysis.statements body
  | function params sig _ body => do
    let vars ← declareParams params sig.params
    return (vars.map some, ← Analysis.statements body)
  | forEach name base collection pos body => do
    let v ← declareVariable name base true pos
    return .forEach (some v) collection (← Analysis.statements body)

/-- The analysis of a body: for a function that of its parameters and its body, for a loop over a
collection that of the loop after the collection. -/
def analysis (b : Body) : Analyze b.Result := within b.overrides b.inside

/-- The state in which the scope of a body is left. -/
def last (b : Body) (s : State) : State := (b.inside (s.enter b.overrides)).2

/-- The names of the variables of a body. -/
def bound : Body → List Text
  | block _ _ => []
  | function params _ _ _ => params.map Tree.Param.name
  | forEach name _ _ _ _ => [name]

theorem inside_settles (b : Body) (h : Settles names (Analysis.statements b.statements)) :
    Settles (b.bound ++ names) b.inside := by
  cases b with
  | block => exact h
  | function params sig =>
    exact .bind (.declareParams params sig.params) fun _ => .after h fun _ => .pure _
  | forEach name base collection pos =>
    exact .bind (.declareVariable name base true pos) fun _ => .after h fun _ => .pure _

theorem settles (b : Body) (h : Settles names (Analysis.statements b.statements)) :
    Settles names' b.analysis :=
  (b.inside_settles h).within b.overrides

end Body

mutual

theorem statement_settles (t : Tree.Stmt) : Settles t.declares (statement t) := by
  cases t with
  | declare name readOnly value pos =>
    rw [statement]
    exact .before (.reading _) fun _ => .after (.declareVariable name _ readOnly pos) fun _ => .pure _
  | function decl =>
    obtain ⟨name, params, result, body, bodyPos, pos⟩ := decl
    rw [statement]
    refine .after (.declareFunction name params result pos) fun x => ?_
    have hbody := statements_settles body
    exact .before ((Body.function params x.2 _ body).settles hbody) fun _ => .pure _
  | cls name fields methods pos =>
    rw [statement]
    refine .after (.declareClass name fields methods pos) fun x => ?_
    exact .before (methodBodies_settles x.1.ref methods x.1.methods x.2) fun _ => .pure _
  | branch b =>
    rw [statement]
    exact branch_settles b
  | loop e body =>
    rw [statement]
    refine .before (.reading _) fun _ => ?_
    exact .before ((Body.block .ofLoop body).settles (statements_settles body)) fun _ => .pure _
  | forEach name namePos e body bodyPos pos =>
    rw [statement]
    have hbody := statements_settles body
    exact .before (.reading _) fun x => (Body.forEach name x.2 x.1 pos body).settles hbody
  | assign | bump | leave | ret | print | call =>
    rw [statement]
    exact .reading _

theorem branch_settles (b : Tree.Branch) : Settles [] (branch b) := by
  obtain ⟨e, body, bodyPos, otherwise, pos⟩ := b
  rw [branch]
  have hbody := statements_settles body
  refine .before (.reading _) fun _ => .before ((Body.block .nothing body).settles hbody) fun _ => ?_
  refine .before (alternate_settles otherwise) fun alternate => ?_
  cases alternate with
  | none | some => exact .pure _

theorem alternate_settles (o : Tree.Otherwise) : Settles [] (alternate o) := by
  cases o with
  | nothing =>
    rw [alternate]
    exact .pure _
  | block body =>
    rw [alternate]
    exact .before ((Body.block .nothing body).settles (statements_settles body)) fun _ => .pure _
  | chain next =>
    rw [alternate]
    exact .before (branch_settles next) fun _ => .pure _

theorem statements_settles (ts : List Tree.Stmt) :
    Settles (ts.flatMap Tree.Stmt.declares) (statements ts) := by
  cases ts with
  | nil =>
    rw [statements]
    exact .pure _
  | cons t rest =>
    rw [statements, List.flatMap_cons]
    exact .bind (statement_settles t) fun _ => .after (statements_settles rest) fun _ => .pure _

theorem methodBodies_settles (ref : ClassRef) (funcs : List Tree.Func) (methods : List (Option Method))
    (signatures : List Signature) : Settles [] (methodBodies ref funcs methods signatures) := by
  cases funcs with
  | nil =>
    rw [methodBodies]
    · exact .pure _
    · exact nofun
  | cons func funcs =>
    obtain ⟨name, params, result, body, bodyPos, pos⟩ := func
    cases methods with
    | nil => exact .pure _
    | cons m methods =>
      cases signatures with
      | nil => exact .pure _
      | cons sig signatures =>
        rw [methodBodies]
        have hbody := statements_settles body
        refine .before ((Body.function params sig _ body).settles hbody) fun _ => ?_
        exact .before (methodBodies_settles ref funcs methods signatures) fun _ => .pure _

end

end Analysis

end PeakLang
