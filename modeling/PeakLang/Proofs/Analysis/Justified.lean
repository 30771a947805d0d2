import PeakLang.Proofs.Analysis.Run
import PeakLang.Proofs.Ty
import PeakLang.Proofs.Ty.Describe

namespace PeakLang.Analysis

open Typed (Expr)

variable {α β : Type}

/-- Whether a fault is right about the types and numbers that it names. -/
def Fault.Justified : Fault → Prop
  | notAssignable source target => source.assignable target = false
  | argumentCount required passed => passed ≠ required
  | objectExpected found => ∀ ref, found ≠ .cls ref
  | _ => True

/-- The fault of an outcome, if there is one, is justified. -/
def Justified (x : Except SemanticError α) : Prop := ∀ e, x = .error e → e.fault.Justified

namespace Justified

theorem ok (a : α) : Justified (.ok a) := nofun

theorem error {fault : Fault} {pos : Pos} (h : fault.Justified) :
    Justified (.error ⟨fault, pos⟩ : Except SemanticError α) := by
  intro e he
  cases he
  exact h

theorem bind {x : Except SemanticError α} {k : α → Except SemanticError β} (h : Justified x)
    (hk : ∀ a, Justified (k a)) : Justified (x >>= k) := by
  intro e he
  obtain hx | ⟨a, -, hka⟩ := bind_eq_error_iff.mp he
  · exact h e hx
  · exact hk a e hka

theorem require {condition : Bool} {fault : Fault} {pos : Pos}
    (h : condition = false → fault.Justified) : Justified (require condition fault pos) := by
  cases condition with
  | true => exact .ok ()
  | false => exact .error (h rfl)

theorem requireAssignable (e : Expr) (target : Ty) (pos : Pos) :
    Justified (requireAssignable e target pos) := .require id

end Justified

section Expressions

variable (s : State)

mutual

theorem resolve_justified (scopes : Scopes) (t : TypeExpr) : Justified (resolve scopes t) := by
  cases t with
  | named name pos =>
    rw [resolve]
    split
    · exact .error trivial
    · exact .ok _
    · exact .error trivial
  | array base | optional base =>
    rw [resolve]
    exact .bind (resolve_justified scopes base) fun _ => .ok _
  | function params result =>
    rw [resolve]
    exact .bind (resolveAll_justified scopes params) fun _ =>
      .bind (resolve_justified scopes result) fun _ => .ok _

theorem resolveAll_justified (scopes : Scopes) (ts : List TypeExpr) :
    Justified (resolveAll scopes ts) := by
  cases ts with
  | nil => exact .ok _
  | cons t rest =>
    rw [resolveAll]
    exact .bind (resolve_justified scopes t) fun _ =>
      .bind (resolveAll_justified scopes rest) fun _ => .ok _

end

theorem nameValue_justified (name : Text) (pos : Pos) : Justified (nameValue s name pos) := by
  unfold nameValue
  split
  · exact .error trivial
  · exact .ok _
  · exact .ok _
  · exact .error trivial

theorem nameCallee_justified (name : Text) (pos : Pos) : Justified (nameCallee s name pos) := by
  unfold nameCallee
  split
  · exact .ok _
  · exact .error trivial
  · exact nameValue_justified s name pos

theorem callOf_justified {callee : Except SemanticError Expr} (calleePos pos : Pos) (passed : Nat)
    {arguments : List Ty → Except SemanticError (List Expr)} (hcallee : Justified callee)
    (harguments : ∀ params, Justified (arguments params)) :
    Justified (callOf callee calleePos passed pos arguments) := by
  refine .bind hcallee fun callee => ?_
  split
  · refine .bind (.require fun hcount => ?_) fun _ => .bind (harguments _) fun _ => .ok _
    exact beq_eq_false_iff_ne.mp hcount
  · exact .error trivial

theorem constantOf_justified {value : Option α} {constant : α → Expr} {fault : Fault} {pos : Pos}
    (h : fault.Justified) : Justified (constantOf value constant fault pos) := by
  cases value with
  | none => exact .error h
  | some => exact .ok _

theorem unaryOf_justified (op : UnaryOp) (operand : Expr) (pos : Pos) :
    Justified (unaryOf op operand pos) := by
  cases op <;> exact .bind (.require fun _ => trivial) fun _ => .ok _

theorem binaryOf_justified (op : BinaryOp) (left right : Expr) (p q r : Pos) :
    Justified (binaryOf op left right p q r) := by
  cases op with
  | eq | neq => exact .bind (.require fun _ => trivial) fun _ => .ok _
  | _ =>
    exact .bind (.require fun _ => trivial) fun _ => .bind (.require fun _ => trivial) fun _ => .ok _

theorem memberOf_justified (object : Expr) (name : Text) (p q : Pos) :
    Justified (memberOf s object p name q) := by
  unfold memberOf
  split
  case h_1 =>
    split
    · exact .ok _
    · split
      · exact .ok _
      · exact .error trivial
  case h_2 t hnot => exact .error hnot

theorem requireArray_justified (e : Expr) (pos : Pos) : Justified (requireArray e pos) := by
  unfold requireArray
  split
  · exact .ok _
  · exact .error trivial

theorem callee_justified (callee : Tree.Expr) (h : Justified (expression s callee)) :
    Justified (match asName? callee with
      | some (n, p) => nameCallee s n p
      | none => expression s callee) := by
  cases callee with
  | name n pos => exact nameCallee_justified s n pos
  | _ => exact h

mutual

theorem expression_justified (t : Tree.Expr) : Justified (expression s t) := by
  cases t with
  | name n pos => exact nameValue_justified s n pos
  | shot pos =>
    rw [expression]
    split
    · exact .ok _
    · exact .error trivial
  | int | float => exact constantOf_justified trivial
  | string | bool => exact .ok _
  | array es pos =>
    cases es with
    | nil => exact .error trivial
    | cons first rest =>
      rw [expression]
      exact .bind (expression_justified first) fun e =>
        .bind (elements_justified e.type rest) fun _ => .ok _
  | emptyArray type pos =>
    rw [expression]
    refine .bind (resolve_justified _ type) fun _ => ?_
    split
    · exact .ok _
    · exact .error trivial
  | member object name pos =>
    rw [expression]
    exact .bind (expression_justified object) fun e => memberOf_justified s e name object.pos pos
  | index object i =>
    rw [expression]
    refine .bind (expression_justified object) fun e =>
      .bind (requireArray_justified e object.pos) fun _ => ?_
    exact .bind (expression_justified i) fun _ =>
      .bind (.require fun _ => trivial) fun _ => .ok _
  | call callee args pos =>
    rw [expression]
    refine .bind (callOf_justified callee.pos pos _ ?_ (arguments_justified args)) fun _ => .ok _
    exact callee_justified s callee (expression_justified callee)
  | unary op operand =>
    rw [expression]
    exact .bind (expression_justified operand) fun e => unaryOf_justified op e operand.pos
  | binary op left right pos =>
    rw [expression]
    exact .bind (expression_justified left) fun l => .bind (expression_justified right) fun r =>
      binaryOf_justified op l r left.pos right.pos pos
  | conditional test consequent alternate pos =>
    rw [expression]
    refine .bind (expression_justified test) fun _ =>
      .bind (.require fun _ => trivial) fun _ => ?_
    exact .bind (expression_justified consequent) fun _ =>
      .bind (expression_justified alternate) fun _ =>
        .bind (.require fun _ => trivial) fun _ => .ok _

theorem arguments_justified (args : List Tree.Expr) (types : List Ty) :
    Justified (arguments s args types) := by
  cases args with
  | nil => exact .ok _
  | cons arg args =>
    cases types with
    | nil => exact .ok _
    | cons type types =>
      rw [arguments]
      exact .bind (expression_justified arg) fun e => .bind (.requireAssignable e type arg.pos) fun _ =>
        .bind (arguments_justified args types) fun _ => .ok _

theorem elements_justified (type : Ty) (es : List Tree.Expr) : Justified (elements s type es) := by
  cases es with
  | nil => exact .ok _
  | cons e rest =>
    rw [elements]
    exact .bind (expression_justified e) fun _ => .bind (.require fun _ => trivial) fun _ =>
      .bind (elements_justified type rest) fun _ => .ok _

end

theorem target_justified (t : Tree.Expr) : Justified (target s t) := by
  refine .bind (expression_justified s t) fun e => ?_
  split
  · exact .bind (.require fun _ => trivial) fun _ => .ok _
  · exact .bind (.require fun _ => trivial) fun _ => .ok _
  · exact .ok _
  · exact .error trivial
  · exact .ok _
  · exact .error trivial

theorem test_justified (t : Tree.Expr) : Justified (test t s) :=
  .bind (expression_justified s t) fun _ => .bind (.require fun _ => trivial) fun _ => .ok _

theorem returned_justified (value : Option Tree.Expr) (pos : Pos) : Justified (returned value pos s) := by
  unfold returned
  split
  · exact .error trivial
  · split
    · cases value with
      | none => exact .ok _
      | some => exact .error trivial
    · cases value with
      | none => exact .error trivial
      | some t =>
        exact .bind (expression_justified s t) fun e => .bind (.requireAssignable e _ t.pos) fun _ => .ok _

end Expressions

/-- An analysis finds only faults that are justified, wherever it starts. -/
def FaultsJustified (m : Analyze α) : Prop := ∀ s, Justified (m s).1

namespace FaultsJustified

theorem pure (a : α) : FaultsJustified (Pure.pure a) := fun _ => .ok a

theorem bind {m : Analyze α} {k : α → Analyze β} (h : FaultsJustified m)
    (hk : ∀ a, FaultsJustified (k a)) : FaultsJustified (m >>= k) := by
  intro s
  have hfirst := h s
  rw [bind_run]
  generalize m s = first at hfirst ⊢
  obtain ⟨x, t⟩ := first
  cases x with
  | error e =>
    intro e' he'
    cases he'
    exact hfirst e rfl
  | ok a => exact hk a t

theorem reading {g : State → Except SemanticError α} (h : ∀ s, Justified (g s)) :
    FaultsJustified (reading g) := by
  intro s
  rw [reading_run]
  exact h s

theorem within {m : Analyze α} (o : Scope.Overrides) (h : FaultsJustified m) :
    FaultsJustified (within o m) := fun s => h (s.enter o)

theorem declare (name : Text) (e : Entity) (pos : Pos) : FaultsJustified (declare name e pos) := by
  intro s
  rw [declare_run]
  cases s.scopes.add? name e with
  | some scopes => exact .ok _
  | none => exact .error trivial

theorem declareVariable (name : Text) (type : Ty) (readOnly : Bool) (pos : Pos) :
    FaultsJustified (declareVariable name type readOnly pos) :=
  .bind (fun _ => .ok _) fun _ => .bind (.declare name _ pos) fun _ => .pure _

end FaultsJustified

section Declarations

theorem signature_justified (scopes : Scopes) (params : List Tree.Param) (result : Option TypeExpr) :
    Justified (signature scopes params result) := by
  have hparams : Justified (params.mapM fun p => resolve scopes p.type) := by
    induction params with
    | nil => exact .ok _
    | cons p rest ih =>
      rw [List.mapM_cons]
      exact .bind (resolve_justified scopes p.type) fun _ => .bind ih fun _ => .ok _
  refine .bind hparams fun _ => ?_
  cases result with
  | none => exact .ok _
  | some t => exact .bind (resolve_justified scopes t) fun _ => .ok _

theorem declareParams_justified (params : List Tree.Param) (types : List Ty) :
    FaultsJustified (declareParams params types) := by
  induction params generalizing types with
  | nil => exact .pure _
  | cons p params ih =>
    cases types with
    | nil => exact .pure _
    | cons type types =>
      exact .bind (.declareVariable _ _ _ p.pos) fun _ => .bind (ih types) fun _ => .pure _

theorem functionBody_justified (params : List Tree.Param) (sig : Signature) (o : Scope.Overrides)
    {body : Analyze (List Typed.Stmt)} (h : FaultsJustified body) :
    FaultsJustified (functionBody params sig o body) :=
  .within o (.bind (declareParams_justified params sig.params) fun _ => .bind h fun _ => .pure _)

theorem declareFunction_justified (name : Text) (params : List Tree.Param) (result : Option TypeExpr)
    (pos : Pos) : FaultsJustified (declareFunction name params result pos) := by
  refine .bind (fun _ => .ok _) fun _ => .bind (.declare name _ pos) fun _ => ?_
  refine .bind (.reading fun s => signature_justified s.scopes params result) fun _ => ?_
  exact .bind (fun _ => .ok _) fun _ => .pure _

theorem fieldsOf_justified (scopes : Scopes) (taken : List Text) (fields : List Tree.Field) :
    Justified (fieldsOf scopes taken fields) := by
  induction fields generalizing taken with
  | nil => exact .ok _
  | cons x rest ih =>
    exact .bind (.require fun _ => trivial) fun _ =>
      .bind (resolve_justified scopes x.type) fun _ => .bind (ih _) fun _ => .ok _

theorem methodsOf_justified (scopes : Scopes) (taken : List Text) (methods : List Tree.Func) :
    Justified (methodsOf scopes taken methods) := by
  induction methods generalizing taken with
  | nil => exact .ok _
  | cons m rest ih =>
    exact .bind (.require fun _ => trivial) fun _ =>
      .bind (signature_justified scopes m.params m.result) fun _ => .bind (ih _) fun _ => .ok _

theorem declareClass_justified (name : Text) (fields : List Tree.Field) (methods : List Tree.Func)
    (pos : Pos) : FaultsJustified (declareClass name fields methods pos) := by
  refine .bind (fun _ => .ok _) fun _ => .bind (.declare name _ pos) fun _ => ?_
  refine .bind (.reading fun s => fieldsOf_justified s.scopes [] fields) fun _ => ?_
  refine .bind (.reading fun s => methodsOf_justified s.scopes _ methods) fun _ => ?_
  exact .bind (fun _ => .ok _) fun _ => .pure _

end Declarations

mutual

theorem statement_justified (t : Tree.Stmt) : FaultsJustified (statement t) := by
  cases t with
  | declare name readOnly value pos =>
    rw [statement]
    exact .bind (.reading fun s => expression_justified s value) fun _ =>
      .bind (.declareVariable _ _ _ pos) fun _ => .pure _
  | function decl =>
    obtain ⟨name, params, result, body, bodyPos, pos⟩ := decl
    rw [statement]
    exact .bind (declareFunction_justified name params result pos) fun _ =>
      .bind (functionBody_justified params _ _ (statements_justified body)) fun _ => .pure _
  | cls name fields methods pos =>
    rw [statement]
    exact .bind (declareClass_justified name fields methods pos) fun x =>
      .bind (methodBodies_justified x.1.ref methods x.1.methods x.2) fun _ => .pure _
  | assign place value =>
    rw [statement]
    refine .reading fun s => .bind (target_justified s place) fun place' => ?_
    exact .bind (expression_justified s value) fun e =>
      .bind (.requireAssignable e place'.type value.pos) fun _ => .ok _
  | bump op place =>
    rw [statement]
    exact .reading fun s => .bind (target_justified s place) fun _ =>
      .bind (.require fun _ => trivial) fun _ => .ok _
  | branch decision =>
    rw [statement]
    exact branch_justified decision
  | loop e body =>
    rw [statement]
    exact .bind (.reading fun s => test_justified s e) fun _ =>
      .bind (.within _ (statements_justified body)) fun _ => .pure _
  | forEach name namePos e body bodyPos pos =>
    rw [statement]
    refine .bind (.reading fun s => ?_) fun _ => .within _ ?_
    · exact .bind (expression_justified s e) fun c =>
        .bind (requireArray_justified c e.pos) fun _ => .ok _
    · exact .bind (.declareVariable _ _ _ pos) fun _ =>
        .bind (statements_justified body) fun _ => .pure _
  | leave pos =>
    rw [statement]
    exact .reading fun s => .bind (.require fun _ => trivial) fun _ => .ok _
  | ret value pos =>
    rw [statement]
    exact .reading fun s => returned_justified s value pos
  | print value =>
    rw [statement]
    exact .reading fun s => .bind (expression_justified s value) fun _ => .ok _
  | call callee args callPos =>
    rw [statement]
    refine .reading fun s => .bind ?_ fun _ => .ok _
    exact callOf_justified callee.pos callPos _ (callee_justified s callee (expression_justified s callee))
      (arguments_justified s args)

theorem branch_justified (b : Tree.Branch) : FaultsJustified (branch b) := by
  obtain ⟨e, body, bodyPos, otherwise, pos⟩ := b
  rw [branch]
  refine .bind (.reading fun s => test_justified s e) fun _ => ?_
  refine .bind (.within _ (statements_justified body)) fun _ => ?_
  refine .bind (alternate_justified otherwise) fun alternate => ?_
  cases alternate with
  | none | some => exact .pure _

theorem alternate_justified (o : Tree.Otherwise) : FaultsJustified (alternate o) := by
  cases o with
  | nothing => exact .pure _
  | block body =>
    rw [alternate]
    exact .bind (.within _ (statements_justified body)) fun _ => .pure _
  | chain next =>
    rw [alternate]
    exact .bind (branch_justified next) fun _ => .pure _

theorem statements_justified (ts : List Tree.Stmt) : FaultsJustified (statements ts) := by
  cases ts with
  | nil => exact .pure _
  | cons t rest =>
    rw [statements]
    exact .bind (statement_justified t) fun _ => .bind (statements_justified rest) fun _ => .pure _

theorem methodBodies_justified (ref : ClassRef) (funcs : List Tree.Func) (methods : List (Option Method))
    (signatures : List Signature) : FaultsJustified (methodBodies ref funcs methods signatures) := by
  cases funcs with
  | nil => exact .pure _
  | cons func funcs =>
    obtain ⟨name, params, result, body, bodyPos, pos⟩ := func
    cases methods with
    | nil => exact .pure _
    | cons m methods =>
      cases signatures with
      | nil => exact .pure _
      | cons sig signatures =>
        rw [methodBodies]
        exact .bind (functionBody_justified params _ _ (statements_justified body)) fun _ =>
          .bind (methodBodies_justified ref funcs methods signatures) fun _ => .pure _

end

/-- The fault that analysis finds in a program is justified. -/
theorem analyze_justified (program : Tree.Program) : Justified (analyze program) :=
  statements_justified program .start

/-- Types whose classes are told apart by their names are written alike exactly if they are the same
type, so the two types that the fault of a program shows as not assignable are written differently. -/
theorem describe_eq_iff_equivalent {a b : Ty} (ha : a.known = true) (hb : b.known = true)
    (hclasses : Ty.ToldApart (a.refs ++ b.refs)) :
    (a.describe = b.describe ↔ a.equivalent b = true) ∧
      ∀ program e, analyze program = .error e → e.fault = .notAssignable a b →
        e.fault.message = "Cannot assign a " ++ a.describe ++ " to a " ++ b.describe ∧
          a.describe ≠ b.describe := by
  have hiff : a.describe = b.describe ↔ a.equivalent b = true := by
    rw [Ty.equivalent_iff_eq]
    constructor
    · intro h
      exact Ty.describe_inj ha hb hclasses h
    · intro h
      rw [h]
  refine ⟨hiff, fun program e herror hfault => ⟨?_, fun hsame => ?_⟩⟩
  · rw [hfault]
    rfl
  · have hrefused := analyze_justified program e herror
    rw [hfault] at hrefused
    have hfits : a.assignable b = true := by
      rw [Ty.equivalent_iff_eq.mp (hiff.mp hsame)]
      exact Ty.assignable_self b
    rw [show a.assignable b = false from hrefused] at hfits
    cases hfits

/-- The class of the program below. -/
private def beanRef : ClassRef := ⟨Entity.firstFree, "Bean"⟩

/-- Functions that may return nothing. -/
private def roasts : Ty := .array (.function [.cls beanRef] (.optional .pump))

/-- Functions that may be missing. -/
private def mayRoast : Ty := .array (.optional (.function [.cls beanRef] .pump))

/-- Assigns the former to the latter. -/
private def roasting : Tree.Program :=
  let bean : TypeExpr := .named "Bean" ⟨2, 16⟩
  let pump : TypeExpr := .named "pump" ⟨2, 24⟩
  [.cls "Bean" [] [] ⟨1, 1⟩,
   .declare "mayRoast" false
     (.emptyArray (.array (.optional (.function [bean] pump ⟨2, 15⟩) ⟨2, 15⟩) ⟨2, 14⟩) ⟨2, 14⟩) ⟨2, 1⟩,
   .assign (.name "mayRoast" ⟨3, 1⟩)
     (.emptyArray (.array (.function [bean] (.optional pump ⟨3, 14⟩) ⟨3, 14⟩) ⟨3, 13⟩) ⟨3, 13⟩) ⟨3, 1⟩]

private theorem beanRef_toldApart : Ty.ToldApart (roasts.refs ++ mayRoast.refs) := by
  have hrefs : ∀ c ∈ roasts.refs ++ mayRoast.refs, c = beanRef := by decide
  constructor
  · intro c hc
    rw [hrefs c hc]
    have hword : ['B', 'e', 'a', 'n'].all Scan.inWord = true := by decide
    exact ⟨['B', 'e', 'a', 'n'], rfl, ⟨'B', rfl, by decide⟩, List.all_eq_true.mp hword, by decide⟩
  · intro c hc d hd hne
    exact absurd ((hrefs c hc).trans (hrefs d hd).symm) hne
  · intro c hc p
    rw [hrefs c hc]
    cases p <;> decide

theorem describe_eq_iff_equivalent_roasting :
    (roasts.describe = mayRoast.describe ↔ roasts.equivalent mayRoast = true) ∧
      ∃ e, analyze roasting = .error e ∧
        e.fault.message =
          "Cannot assign a " ++ roasts.describe ++ " to a " ++ mayRoast.describe ∧
        roasts.describe ≠ mayRoast.describe := by
  obtain ⟨hiff, herror⟩ := describe_eq_iff_equivalent (a := roasts) (b := mayRoast) rfl rfl
    beanRef_toldApart
  have hfault : analyze roasting = .error ⟨.notAssignable roasts mayRoast, ⟨3, 13⟩⟩ := rfl
  exact ⟨hiff, _, hfault, herror _ _ hfault rfl⟩

end PeakLang.Analysis
