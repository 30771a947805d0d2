import Mathlib.Data.List.Forall2
import PeakLang.Analysis
import PeakLang.Proofs.Except
import PeakLang.Proofs.Scope

namespace PeakLang.Analysis

variable {α β : Type} {s s' : State}

theorem bind_run (m : Analyze α) (k : α → Analyze β) (s : State) :
    (m >>= k) s = match m s with
      | (.ok a, t) => k a t
      | (.error e, t) => (.error e, t) := by
  simp only [bind, ExceptT.bind, ExceptT.mk, StateT.bind]
  rcases m s with ⟨r, t⟩
  cases r <;> rfl

theorem reading_run (g : State → Except SemanticError α) (s : State) :
    @Eq (Except SemanticError α × State) (reading g s) (g s, s) := by
  have hget : (get : Analyze State) s = (.ok s, s) := rfl
  rw [reading, bind_run, hget]
  cases h : g s <;> simp only [h] <;> rfl

theorem declare_run (name : Text) (e : Entity) (pos : Pos) (s : State) :
    @Eq (Except SemanticError Unit × State) (declare name e pos s)
      (match s.scopes.add? name e with
        | some scopes => (.ok (), { s with scopes })
        | none => (.error ⟨.duplicate name, pos⟩, s)) := by
  rw [declare, bind_run]
  change (match s.scopes.add? name e with
    | some scopes => (set { s with scopes } : Analyze Unit)
    | none => throw (SemanticError.mk (.duplicate name) pos)) s = _
  cases s.scopes.add? name e <;> rfl

/-- An analysis finds no fault: it leads to a result and a state. -/
def Yields (m : Analyze α) (s : State) (a : α) (s' : State) : Prop :=
  @Eq (Except SemanticError α × State) (m s) (.ok a, s')

theorem yields_pure {a b : α} : Yields (pure a) s b s' ↔ a = b ∧ s = s' := by
  change (Except.ok a, s) = (Except.ok b, s') ↔ _
  rw [Prod.mk.injEq, Except.ok.injEq]

theorem yields_bind {m : Analyze α} {f : α → Analyze β} {b : β} :
    Yields (m >>= f) s b s' ↔ ∃ a t, Yields m s a t ∧ Yields (f a) t b s' := by
  unfold Yields
  rw [bind_run]
  rcases m s with ⟨r, t⟩
  cases r with
  | error e =>
    constructor
    · intro h
      cases h
    · rintro ⟨_, _, h, -⟩
      cases h
  | ok a =>
    constructor
    · exact fun h => ⟨a, t, rfl, h⟩
    · rintro ⟨_, _, h, h'⟩
      cases h
      exact h'

theorem yields_reading {f : State → Except SemanticError α} {a : α} :
    Yields (reading f) s a s' ↔ f s = .ok a ∧ s = s' := by
  rw [Yields, reading_run, Prod.mk.injEq]

theorem yields_fresh {n : Nat} :
    Yields fresh s n s' ↔ n = s.nextId ∧ s' = { s with nextId := s.nextId + 1 } := by
  constructor
  · intro h
    cases h
    exact ⟨rfl, rfl⟩
  · rintro ⟨rfl, rfl⟩
    rfl

theorem yields_declare {name : Text} {e : Entity} {pos : Pos} {u : Unit} :
    Yields (declare name e pos) s u s' ↔
      s.scopes.findLocal? name = none ∧ s' = { s with scopes := s.scopes.bind name e } := by
  rw [Yields, declare_run, Scopes.add?]
  cases s.scopes.findLocal? name with
  | none =>
    constructor
    · intro h
      cases h
      exact ⟨rfl, rfl⟩
    · rintro ⟨-, rfl⟩
      rfl
  | some found =>
    constructor
    · intro h
      cases h
    · rintro ⟨h, -⟩
      cases h

theorem yields_redeclare {name : Text} {e : Entity} {u : Unit} :
    Yields (redeclare name e) s u s' ↔ s' = { s with scopes := s.scopes.bind name e } :=
  ⟨fun h => by cases h; rfl, fun h => by cases h; rfl⟩

theorem yields_register {c : Class} {u : Unit} :
    Yields (register c) s u s' ↔ s' = { s with classes := s.classes ++ [c] } :=
  ⟨fun h => by cases h; rfl, fun h => by cases h; rfl⟩

theorem yields_within {o : Scope.Overrides} {body : Analyze α} {a : α} :
    Yields (within o body) s a s' ↔ ∃ t, Yields body (s.enter o) a t ∧ s' = t.leave := by
  have hwithin : within o body s = ((body (s.enter o)).1, (body (s.enter o)).2.leave) := rfl
  constructor
  · intro h
    rw [Yields, hwithin, Prod.mk.injEq] at h
    exact ⟨(body (s.enter o)).2, Prod.ext h.1 rfl, h.2.symm⟩
  · rintro ⟨t, h, rfl⟩
    rw [Yields, hwithin, show body (s.enter o) = (.ok a, t) from h]

theorem yields_functionBody {params : List Tree.Param} {sig : Signature} {o : Scope.Overrides}
    {m : Analyze (List Typed.Stmt)} {vs : List (Option Variable)} {body : List Typed.Stmt}
    (h : Yields (functionBody params sig o m) s (vs, body) s') :
    ∃ ws t t', Yields (declareParams params sig.params) (s.enter o) ws t ∧ Yields m t body t' ∧
      vs = ws.map some ∧ s' = t'.leave := by
  obtain ⟨_, ht, rfl⟩ := yields_within.mp h
  simp only [yields_bind, yields_pure, Prod.mk.injEq] at ht
  obtain ⟨ws, t, hparams, r, t', hr, ⟨rfl, rfl⟩, rfl⟩ := ht
  exact ⟨ws, t, t', hparams, hr, rfl, rfl⟩

theorem require_eq_ok_iff {condition : Bool} {fault : Fault} {pos : Pos} {u : Unit} :
    require condition fault pos = .ok u ↔ condition = true := by
  cases condition <;> simp [require]

theorem requireArray_eq_ok_iff {e : Typed.Expr} {pos : Pos} {base : Ty} :
    requireArray e pos = .ok base ↔ e.type = .array base := by
  unfold requireArray
  split
  · rename_i htype
    simp [htype]
  · rename_i hother
    constructor
    · intro h
      cases h
    · intro h
      exact absurd h (hother base)

section Types

variable {scopes : Scopes} {P : Ty → Prop}

/-- A property of the types that can be looked up, and of all that are built of types with it. -/
structure GivesTypes (scopes : Scopes) (P : Ty → Prop) : Prop where
  find? : ∀ {name n t}, scopes.find? name = some (.type n t) → P t
  none : P .none
  array : ∀ {t}, P t → P (.array t)
  optional : ∀ {t}, P t → P (.optional t)
  function : ∀ {params result}, (∀ t ∈ params, P t) → P result → P (.function params result)

namespace GivesTypes

mutual

theorem resolve (h : GivesTypes scopes P) {t : TypeExpr} {type : Ty}
    (ht : resolve scopes t = .ok type) : P type := by
  cases t with
  | named name pos =>
    rw [Analysis.resolve] at ht
    split at ht <;> cases ht
    exact h.find? ‹_›
  | array base pos =>
    simp only [Analysis.resolve, bind_eq_ok_iff, pure_eq_ok_iff] at ht
    obtain ⟨b, hb, rfl⟩ := ht
    exact h.array (h.resolve hb)
  | optional base pos =>
    simp only [Analysis.resolve, bind_eq_ok_iff, pure_eq_ok_iff] at ht
    obtain ⟨b, hb, rfl⟩ := ht
    exact h.optional (h.resolve hb)
  | function params result pos =>
    simp only [Analysis.resolve, bind_eq_ok_iff, pure_eq_ok_iff] at ht
    obtain ⟨ps, hps, r, hr, rfl⟩ := ht
    exact h.function (h.resolveAll hps) (h.resolve hr)

theorem resolveAll (h : GivesTypes scopes P) {ts : List TypeExpr} {types : List Ty}
    (hts : resolveAll scopes ts = .ok types) : ∀ t ∈ types, P t := by
  cases ts with
  | nil =>
    cases hts
    exact List.forall_mem_nil _
  | cons t rest =>
    simp only [Analysis.resolveAll, bind_eq_ok_iff, pure_eq_ok_iff] at hts
    obtain ⟨type, ht, types, hts, rfl⟩ := hts
    exact List.forall_mem_cons.mpr ⟨h.resolve ht, h.resolveAll hts⟩

end

theorem params (h : GivesTypes scopes P) {params : List Tree.Param} {types : List Ty}
    (hparams : (params.mapM fun p => Analysis.resolve scopes p.type) = .ok types) :
    types.length = params.length ∧ ∀ t ∈ types, P t := by
  induction params generalizing types with
  | nil =>
    cases hparams
    exact ⟨rfl, List.forall_mem_nil _⟩
  | cons p rest ih =>
    simp only [List.mapM_cons, bind_eq_ok_iff, pure_eq_ok_iff] at hparams
    obtain ⟨type, ht, types, hts, rfl⟩ := hparams
    obtain ⟨hlength, hall⟩ := ih hts
    exact ⟨congrArg (· + 1) hlength, List.forall_mem_cons.mpr ⟨h.resolve ht, hall⟩⟩

theorem signature (h : GivesTypes scopes P) {params : List Tree.Param} {result : Option TypeExpr}
    {sig : Signature} (hsig : signature scopes params result = .ok sig) :
    sig.params.length = params.length ∧ P sig.type := by
  simp only [Analysis.signature, bind_eq_ok_iff] at hsig
  obtain ⟨types, htypes, hsig⟩ := hsig
  obtain ⟨hlength, hall⟩ := h.params htypes
  cases result with
  | none =>
    cases hsig
    exact ⟨hlength, h.function hall h.none⟩
  | some t =>
    simp only [bind_eq_ok_iff, pure_eq_ok_iff] at hsig
    obtain ⟨r, hr, rfl⟩ := hsig
    exact ⟨hlength, h.function hall (h.resolve hr)⟩

theorem fieldsOf (h : GivesTypes scopes P) {taken : List Text} {fields : List Tree.Field}
    {types : List (Text × Ty)} (hfields : fieldsOf scopes taken fields = .ok types) :
    (∀ f ∈ types, P f.2) ∧ types.map Prod.fst = fields.map Tree.Field.name := by
  induction fields generalizing taken types with
  | nil =>
    cases hfields
    exact ⟨List.forall_mem_nil _, rfl⟩
  | cons f rest ih =>
    simp only [Analysis.fieldsOf, bind_eq_ok_iff, pure_eq_ok_iff] at hfields
    obtain ⟨-, -, type, htype, types, htypes, rfl⟩ := hfields
    obtain ⟨hall, hnames⟩ := ih htypes
    exact ⟨List.forall_mem_cons.mpr ⟨h.resolve htype, hall⟩, congrArg (f.name :: ·) hnames⟩

theorem methodsOf (h : GivesTypes scopes P) {taken : List Text} {methods : List Tree.Func}
    {signatures : List (Text × Signature)}
    (hmethods : methodsOf scopes taken methods = .ok signatures) :
    (∀ sig ∈ signatures, P sig.2.type) ∧ signatures.map Prod.fst = methods.map Tree.Func.name ∧
      List.Forall₂ (fun m sig => sig.2.params.length = (Tree.Func.params m).length)
        methods signatures := by
  induction methods generalizing taken signatures with
  | nil =>
    cases hmethods
    exact ⟨List.forall_mem_nil _, rfl, .nil⟩
  | cons m rest ih =>
    simp only [Analysis.methodsOf, bind_eq_ok_iff, pure_eq_ok_iff] at hmethods
    obtain ⟨-, -, sig, hsig, signatures, hsigs, rfl⟩ := hmethods
    obtain ⟨hlength, htype⟩ := h.signature hsig
    obtain ⟨hall, hnames, hlengths⟩ := ih hsigs
    exact ⟨List.forall_mem_cons.mpr ⟨htype, hall⟩, congrArg (m.name :: ·) hnames,
      .cons hlength hlengths⟩

end GivesTypes

/-- What holds of every type. -/
theorem givesTypes_true (scopes : Scopes) : GivesTypes scopes fun _ => True :=
  ⟨fun _ => trivial, trivial, fun _ => trivial, fun _ => trivial, fun _ _ => trivial⟩

end Types

end PeakLang.Analysis
