import PeakLang.Proofs.Analysis.Passes
import PeakLang.Proofs.Typed.Renamed
import PeakLang.Proofs.Typed.Unlocked

namespace PeakLang

theorem Renaming.contains_map (r : Renaming) (names : List Text) (name : Text) :
    (names.map r).contains (r name) = names.contains name := by
  induction names with
  | nil => rfl
  | cons n rest ih => rw [List.map_cons, List.contains_cons, List.contains_cons, r.beq, ih]

namespace Typed

variable (g : Recasting)

def Expr.recast (e : Expr) : Expr := (e.renamed g.names).unlocked g.opens

def Expr.recastAll (es : List Expr) : List Expr := unlockedAll g.opens (renamedAll g.names es)

def Stmt.recast (s : Stmt) : Stmt := (s.renamed g.names).unlocked g.opens

def Stmt.recastAll (ss : List Stmt) : List Stmt := unlockedAll g.opens (renamedAll g.names ss)

def MethodBody.recastAll (ms : List MethodBody) : List MethodBody :=
  unlockedAll g.opens (renamedAll g.names ms)

theorem Expr.type_recast (e : Expr) : (e.recast g).type = e.type.renamed g.names := by
  rw [recast, type_unlocked, type_renamed]

end Typed

namespace Analysis

open Typed (Expr)

/-- A fault about renamed names and types. -/
def Fault.renamed (r : Renaming) : Fault → Fault
  | undeclared name => .undeclared (r name)
  | duplicate name => .duplicate (r name)
  | notAssignable source target => .notAssignable (source.renamed r) (target.renamed r)
  | constantTarget name => .constantTarget (r name)
  | methodTarget name => .methodTarget (r name)
  | typeAsValue type => .typeAsValue (type.renamed r)
  | objectExpected found => .objectExpected (found.renamed r)
  | fault => fault

theorem Fault.renamed_none (fault : Fault) : fault.renamed .none = fault := by
  cases fault <;> simp only [renamed, Ty.renamed_none] <;> rfl

variable {α β γ δ : Type} (g : Recasting)

/-- A fault about renamed names and types, at a position that is moved. -/
def SemanticError.recast (e : SemanticError) : SemanticError := ⟨e.fault.renamed g.names, g.move e.pos⟩

theorem SemanticError.recast_plain (e : SemanticError) : e.recast g.plain = e := by
  exact congrArg (SemanticError.mk · e.pos) e.fault.renamed_none

namespace State

def recast (s : State) : State :=
  { s with scopes := s.scopes.recast g, classes := s.classes.map (Class.renamed g.names) }

theorem scopes_recast (s : State) : (s.recast g).scopes = s.scopes.recast g := rfl

/-- The entity that a new name stands for. -/
theorem find?_recast (s : State) (name : Text) :
    (s.recast g).scopes.find? (g.names name) = (s.scopes.find? name).map (Entity.recast g) :=
  s.scopes.find?_recast g name

theorem start_recast : start.recast g = start := by
  rw [recast, start, Scopes.start_recast]
  rfl

theorem start_keyed : start.scopes.Keyed := by
  refine Scopes.HoldsAt.push (fun i d hd => ?_) _
  have hroot : (⟨#[.root], 0⟩ : Scopes).get i = .root := by cases i <;> rfl
  rw [hroot] at hd
  obtain ⟨e, -, rfl⟩ := List.mem_map.mp hd
  rfl

theorem class?_recast (s : State) (ref : ClassRef) :
    (s.recast g).class? (ref.renamed g.names) = (s.class? ref).map (Class.renamed g.names) := by
  have hsame : (fun c : Class => c.ref == ref.renamed g.names) ∘ Class.renamed g.names =
      fun c => c.ref == ref :=
    funext fun c => c.ref.renamed_beq g.names ref
  rw [class?, recast, List.find?_map, hsame, class?]

theorem enter_recast (s : State) (o : Scope.Overrides) :
    (s.recast g).enter (o.renamed g.names) = (s.enter o).recast g := by
  rw [enter, recast, Scopes.push_recast]
  rfl

theorem bind_recast (s : State) (name : Text) (e : Entity) :
    { s.recast g with scopes := (s.recast g).scopes.bind (g.names name) (e.recast g) } =
      recast g { s with scopes := s.scopes.bind name e } := by
  rw [scopes_recast, Scopes.bind_recast]
  rfl

theorem register_recast (s : State) (c : Class) :
    { s.recast g with classes := (s.recast g).classes ++ [c.renamed g.names] } =
      recast g { s with classes := s.classes ++ [c] } := by
  simp only [recast, List.map_append, List.map_singleton]

theorem leave_recast (s : State) : (s.recast g).leave = s.leave.recast g := by
  rw [leave, recast, Scopes.pop?_recast, leave]
  cases s.scopes.pop? <;> rfl

end State

/-- An outcome, recast, where `v` recasts what was found. -/
def recastOutcome (v : α → β) (x : Except SemanticError α) : Except SemanticError β :=
  (x.map v).mapError (SemanticError.recast g)

theorem recastOutcome_plain {v : α → α} (hv : ∀ a, v a = a) (x : Except SemanticError α) :
    recastOutcome g.plain v x = x := by
  cases x with
  | ok a => exact congrArg Except.ok (hv a)
  | error e => exact congrArg Except.error (e.recast_plain g)

/-- The second outcome is the first one recast, where `v` recasts what was found. -/
def Recast (v : α → β) (x : Except SemanticError α) (y : Except SemanticError β) : Prop :=
  y = recastOutcome g v x

namespace Recast

variable {g} {v : α → β} {w : γ → δ}

theorem ok (a : α) : Recast g v (.ok a) (.ok (v a)) := rfl

theorem error (fault : Fault) (pos : Pos) :
    Recast g v (.error ⟨fault, pos⟩) (.error ⟨fault.renamed g.names, g.move pos⟩) := rfl

theorem bindOk {x : Except SemanticError α} {y : Except SemanticError β} {k : α → Except SemanticError γ}
    {l : β → Except SemanticError δ} (hx : Recast g v x y)
    (hk : ∀ a, x = .ok a → Recast g w (k a) (l (v a))) : Recast g w (x >>= k) (y >>= l) := by
  cases x with
  | error e =>
    obtain rfl : y = .error (e.recast g) := hx
    rfl
  | ok a =>
    obtain rfl : y = .ok (v a) := hx
    exact hk a rfl

theorem bind {x : Except SemanticError α} {y : Except SemanticError β} {k : α → Except SemanticError γ}
    {l : β → Except SemanticError δ} (hx : Recast g v x y) (hk : ∀ a, Recast g w (k a) (l (v a))) :
    Recast g w (x >>= k) (y >>= l) :=
  .bindOk hx fun a _ => hk a

theorem require {condition condition' : Bool} (hcondition : condition' = condition) (fault : Fault)
    (pos : Pos) :
    Recast g id (require condition fault pos)
      (require condition' (fault.renamed g.names) (g.move pos)) := by
  subst hcondition
  cases condition' with
  | true => exact .ok ()
  | false => exact .error fault pos

end Recast

section Expressions

variable (s : State)

mutual

theorem resolve_recast (scopes : Scopes) (t : TypeExpr) :
    Recast g (Ty.renamed g.names) (resolve scopes t) (resolve (scopes.recast g) (g.type t)) := by
  cases t with
  | named name pos =>
    simp only [g.type_named, resolve, Scopes.find?_recast]
    cases scopes.find? name with
    | none => exact .error _ pos
    | some e =>
      cases e with
      | type n t => exact .ok t
      | var | function => exact .error _ pos
  | array base =>
    simp only [g.type_array, resolve]
    exact .bind (resolve_recast scopes base) fun _ => .ok _
  | optional base =>
    simp only [g.type_optional, resolve]
    exact .bind (resolve_recast scopes base) fun _ => .ok _
  | function params result =>
    simp only [g.type_function, resolve]
    exact .bind (resolveAll_recast scopes params) fun _ =>
      .bind (resolve_recast scopes result) fun _ => .ok _

theorem resolveAll_recast (scopes : Scopes) (ts : List TypeExpr) :
    Recast g (Ty.renamedAll g.names) (resolveAll scopes ts)
      (resolveAll (scopes.recast g) (g.types ts)) := by
  cases ts with
  | nil =>
    rw [g.types_nil]
    exact .ok _
  | cons t rest =>
    simp only [g.types_cons, resolveAll]
    exact .bind (resolve_recast scopes t) fun _ =>
      .bind (resolveAll_recast scopes rest) fun _ => .ok _

end

theorem requireBoolean_recast (e : Expr) (pos : Pos) :
    Recast g id (requireBoolean e pos) (requireBoolean (e.recast g) (g.move pos)) :=
  .require (by rw [Expr.type_recast, Ty.isPrim_renamed]) _ pos

theorem requireInteger_recast (e : Expr) (pos : Pos) :
    Recast g id (requireInteger e pos) (requireInteger (e.recast g) (g.move pos)) :=
  .require (by rw [Expr.type_recast, Ty.isPrim_renamed]) _ pos

theorem requireNumber_recast (e : Expr) (pos : Pos) :
    Recast g id (requireNumber e pos) (requireNumber (e.recast g) (g.move pos)) :=
  .require (by rw [Expr.type_recast, Ty.isNumeric_renamed]) _ pos

theorem requireNumberOrString_recast (e : Expr) (pos : Pos) :
    Recast g id (requireNumberOrString e pos) (requireNumberOrString (e.recast g) (g.move pos)) :=
  .require (by rw [Expr.type_recast, Ty.isNumeric_renamed, Ty.isPrim_renamed]) _ pos

theorem requireSameType_recast (a b : Expr) (pos : Pos) :
    Recast g id (requireSameType a b pos) (requireSameType (a.recast g) (b.recast g) (g.move pos)) :=
  .require (by rw [Expr.type_recast, Expr.type_recast, Ty.equivalent_renamed]) _ pos

theorem requireAssignable_recast (e : Expr) (target : Ty) (pos : Pos) :
    Recast g id (requireAssignable e target pos)
      (requireAssignable (e.recast g) (target.renamed g.names) (g.move pos)) := by
  rw [requireAssignable, requireAssignable, Expr.type_recast]
  exact .require (Ty.assignable_renamed g.names _ _) _ pos

theorem requireArray_recast (e : Expr) (pos : Pos) :
    Recast g (Ty.renamed g.names) (requireArray e pos) (requireArray (e.recast g) (g.move pos)) := by
  rw [requireArray, requireArray, Expr.type_recast]
  cases e.type with
  | array base => exact .ok base
  | _ => exact .error _ pos

theorem nameValue_recast (name : Text) (pos : Pos) :
    Recast g (Expr.recast g) (nameValue s name pos)
      (nameValue (s.recast g) (g.names name) (g.move pos)) := by
  rw [nameValue, nameValue, State.find?_recast]
  cases s.scopes.find? name with
  | none => exact .error _ pos
  | some e =>
    cases e with
    | var | function => exact .ok _
    | type => exact .error _ pos

theorem nameCallee_recast (name : Text) (pos : Pos) :
    Recast g (Expr.recast g) (nameCallee s name pos)
      (nameCallee (s.recast g) (g.names name) (g.move pos)) := by
  have hvalue := nameValue_recast g s name pos
  rw [nameCallee, nameCallee, State.find?_recast]
  cases s.scopes.find? name with
  | none => exact hvalue
  | some e =>
    cases e with
    | var | function => exact hvalue
    | type n t =>
      cases t with
      | cls ref =>
        have htype : (((s.recast g).class? (ref.renamed g.names)).map
              fun c : Class => c.constructor.type).getD Ty.untyped =
            (((s.class? ref).map fun c : Class => c.constructor.type).getD .untyped).renamed g.names := by
          rw [State.class?_recast]
          cases s.class? ref with
          | none => rfl
          | some c => exact congrArg Signature.type (c.constructor_renamed g.names)
        simp only [Option.map_some, Entity.recast, Ty.renamed, htype]
        exact .ok _
      | _ => exact .error _ pos

/-- What is called, the arguments and the type of the call, recast. -/
def recastCall (c : Expr × List Expr × Ty) : Expr × List Expr × Ty :=
  (c.1.recast g, Expr.recastAll g c.2.1, c.2.2.renamed g.names)

theorem callOf_recast {callee callee' : Except SemanticError Expr} (calleePos pos : Pos) (passed : Nat)
    {arguments arguments' : List Ty → Except SemanticError (List Expr)}
    (hcallee : Recast g (Expr.recast g) callee callee')
    (harguments : ∀ params, Recast g (Expr.recastAll g) (arguments params)
      (arguments' (Ty.renamedAll g.names params))) :
    Recast g (recastCall g) (callOf callee calleePos passed pos arguments)
      (callOf callee' (g.move calleePos) passed (g.move pos) arguments') := by
  refine .bind hcallee fun e => ?_
  rw [Expr.type_recast]
  cases e.type with
  | function params result =>
    have hlength : (Ty.renamedAll g.names params).length = params.length := by
      rw [Ty.renamedAll_eq_map, List.length_map]
    simp only [Ty.renamed, hlength]
    exact .bind (.require rfl _ pos) fun _ => .bind (harguments params) fun _ => .ok _
  | _ => exact .error _ calleePos

theorem constantOf_recast {value : Option α} {constant : α → Expr} {fault : Fault} {pos : Pos}
    (hconstant : ∀ a, (constant a).recast g = constant a) (hfault : fault.renamed g.names = fault) :
    Recast g (Expr.recast g) (constantOf value constant fault pos)
      (constantOf value constant fault (g.move pos)) := by
  cases value with
  | none =>
    change Except.error _ = Except.error (SemanticError.mk (fault.renamed g.names) (g.move pos))
    rw [hfault]
  | some a => exact congrArg Except.ok (hconstant a).symm

theorem unaryOf_recast (op : UnaryOp) (operand : Expr) (pos : Pos) :
    Recast g (Expr.recast g) (unaryOf op operand pos)
      (unaryOf op (operand.recast g) (g.move pos)) := by
  cases op with
  | not => exact .bind (requireBoolean_recast g operand pos) fun _ => .ok _
  | neg =>
    simp only [unaryOf, Expr.type_recast]
    exact .bind (requireNumber_recast g operand pos) fun _ => .ok _

theorem binaryOf_recast (op : BinaryOp) (left right : Expr) (p q pos : Pos) :
    Recast g (Expr.recast g) (binaryOf op left right p q pos)
      (binaryOf op (left.recast g) (right.recast g) (g.move p) (g.move q) (g.move pos)) := by
  cases op with
  | or | and =>
    exact .bind (requireBoolean_recast g left p) fun _ =>
      .bind (requireBoolean_recast g right q) fun _ => .ok _
  | eq | neq => exact .bind (requireSameType_recast g left right pos) fun _ => .ok _
  | lt | leq | gt | geq =>
    exact .bind (requireNumberOrString_recast g left p) fun _ =>
      .bind (requireSameType_recast g left right pos) fun _ => .ok _
  | add =>
    simp only [binaryOf, Expr.type_recast]
    exact .bind (requireNumberOrString_recast g left p) fun _ =>
      .bind (requireSameType_recast g left right pos) fun _ => .ok _
  | sub | mul | div | rem | pow =>
    simp only [binaryOf, Expr.type_recast]
    exact .bind (requireNumber_recast g left p) fun _ =>
      .bind (requireSameType_recast g left right pos) fun _ => .ok _

theorem memberOf_recast (object : Expr) (name : Text) (p pos : Pos) :
    Recast g (Expr.recast g) (memberOf s object p name pos)
      (memberOf (s.recast g) (object.recast g) (g.move p) (g.names name) (g.move pos)) := by
  rw [memberOf, memberOf, Expr.type_recast]
  cases object.type with
  | cls ref =>
    have hfield : (((s.recast g).class? (ref.renamed g.names)).bind fun c => c.field? (g.names name)) =
        ((s.class? ref).bind fun c => c.field? name).map (Field.renamed g.names) := by
      rw [State.class?_recast]
      cases s.class? ref with
      | none => rfl
      | some c => exact c.field?_renamed g.names name
    have hmethod : (((s.recast g).class? (ref.renamed g.names)).bind
          fun c => c.method? (g.names name)) =
        ((s.class? ref).bind fun c => c.method? name).map (Method.renamed g.names) := by
      rw [State.class?_recast]
      cases s.class? ref with
      | none => rfl
      | some c => exact c.method?_renamed g.names name
    simp only [Ty.renamed, hfield, hmethod]
    cases (s.class? ref).bind fun c => c.field? name with
    | some f => exact .ok _
    | none =>
      cases (s.class? ref).bind fun c => c.method? name with
      | some m =>
        simp only [Option.map_some, Option.map_none, Method.type_renamed]
        exact .ok _
      | none => exact .error _ pos
  | _ => exact .error _ p

theorem asName?_expr (e : Tree.Expr) :
    asName? (g.expr e) = (asName? e).map fun x => (g.names x.1, g.move x.2) := by
  cases e <;> simp [asName?]

theorem callee_recast (callee : Tree.Expr)
    (h : Recast g (Expr.recast g) (expression s callee)
      (expression (s.recast g) (g.expr callee))) :
    Recast g (Expr.recast g)
      (match asName? callee with
        | some (n, p) => nameCallee s n p
        | none => expression s callee)
      (match asName? (g.expr callee) with
        | some (n, p) => nameCallee (s.recast g) n p
        | none => expression (s.recast g) (g.expr callee)) := by
  rw [asName?_expr]
  cases asName? callee with
  | some x => exact nameCallee_recast g s x.1 x.2
  | none => exact h

mutual

theorem expression_recast (t : Tree.Expr) :
    Recast g (Expr.recast g) (expression s t) (expression (s.recast g) (g.expr t)) := by
  cases t with
  | name n pos =>
    rw [g.expr_name]
    exact nameValue_recast g s n pos
  | shot pos =>
    simp only [g.expr_shot, expression, State.scopes_recast, Scopes.cls_recast]
    cases s.scopes.cls with
    | none => exact .error _ pos
    | some c => exact .ok _
  | int digits pos =>
    rw [g.expr_int]
    exact constantOf_recast g (fun _ => rfl) rfl
  | float digits pos =>
    rw [g.expr_float]
    exact constantOf_recast g (fun _ => rfl) rfl
  | string value pos =>
    rw [g.expr_string]
    exact .ok _
  | bool value pos =>
    rw [g.expr_bool]
    exact .ok _
  | array es pos =>
    cases es with
    | nil =>
      rw [g.expr_array, g.exprs_nil]
      exact .error _ pos
    | cons first rest =>
      simp only [g.expr_array, g.exprs_cons, expression]
      refine .bind (expression_recast first) fun e => ?_
      simp only [Expr.type_recast]
      exact .bind (elements_recast e.type rest) fun _ => .ok _
  | emptyArray type pos =>
    simp only [g.expr_emptyArray, expression]
    refine .bind (resolve_recast g s.scopes type) fun t => ?_
    cases t with
    | array base => exact .ok _
    | _ => exact .error _ pos
  | member object name pos =>
    simp only [g.expr_member, expression, g.pos_expr]
    exact .bind (expression_recast object) fun e => memberOf_recast g s e name object.pos pos
  | index object i =>
    simp only [g.expr_index, expression, g.pos_expr]
    exact .bind (expression_recast object) fun e => .bind (requireArray_recast g e object.pos)
      fun _ => .bind (expression_recast i) fun j => .bind (requireInteger_recast g j i.pos)
        fun _ => .ok _
  | call callee args pos =>
    simp only [g.expr_call, expression, g.length_exprs, g.pos_expr]
    refine .bind (callOf_recast g callee.pos pos _ ?_ (arguments_recast args)) fun _ => .ok _
    exact callee_recast g s callee (expression_recast callee)
  | unary op operand =>
    simp only [g.expr_unary, expression, g.pos_expr]
    exact .bind (expression_recast operand) fun e => unaryOf_recast g op e operand.pos
  | binary op left right pos =>
    simp only [g.expr_binary, expression, g.pos_expr]
    exact .bind (expression_recast left) fun x => .bind (expression_recast right) fun y =>
      binaryOf_recast g op x y left.pos right.pos pos
  | conditional test consequent alternate pos =>
    simp only [g.expr_conditional, expression, g.pos_expr]
    refine .bind (expression_recast test) fun t => .bind (requireBoolean_recast g t test.pos)
      fun _ => .bind (expression_recast consequent) fun x =>
        .bind (expression_recast alternate) fun y =>
          .bind (requireSameType_recast g x y pos) fun _ => ?_
    rw [Expr.type_recast]
    exact .ok _

theorem arguments_recast (args : List Tree.Expr) (types : List Ty) :
    Recast g (Expr.recastAll g) (arguments s args types)
      (arguments (s.recast g) (g.exprs args) (Ty.renamedAll g.names types)) := by
  cases args with
  | nil =>
    rw [g.exprs_nil]
    exact .ok _
  | cons arg args =>
    rw [g.exprs_cons]
    cases types with
    | nil => exact .ok _
    | cons type types =>
      simp only [Ty.renamedAll, arguments, g.pos_expr]
      exact .bind (expression_recast arg) fun e =>
        .bind (requireAssignable_recast g e type arg.pos) fun _ =>
          .bind (arguments_recast args types) fun _ => .ok _

theorem elements_recast (type : Ty) (es : List Tree.Expr) :
    Recast g (Expr.recastAll g) (elements s type es)
      (elements (s.recast g) (type.renamed g.names) (g.exprs es)) := by
  cases es with
  | nil =>
    rw [g.exprs_nil]
    exact .ok _
  | cons e rest =>
    simp only [g.exprs_cons, elements, g.pos_expr]
    refine .bind (expression_recast e) fun x => ?_
    simp only [Expr.type_recast, Ty.equivalent_renamed]
    exact .bind (.require rfl _ e.pos) fun _ => .bind (elements_recast type rest) fun _ => .ok _

end

theorem call_recast (callee : Tree.Expr) (args : List Tree.Expr) (pos : Pos) :
    Recast g (recastCall g) (call s callee args pos)
      (call (s.recast g) (g.expr callee) (g.exprs args) (g.move pos)) := by
  unfold call
  rw [g.length_exprs, g.pos_expr]
  exact callOf_recast g callee.pos pos _ (callee_recast g s callee (expression_recast g s callee))
    (arguments_recast g s args)

/-- None of some names is opened. -/
def Kept (names : List Text) : Prop := ∀ n ∈ names, g.opens (g.names n) = false

theorem Kept.plain {t : Tree.Expr} (h : Kept g t.name?.toList) :
    Kept g.plain (g.expr t).name?.toList := by
  intro n hn
  rw [g.name?_expr, Option.mem_toList, Option.map_eq_some_iff] at hn
  obtain ⟨m, hm, rfl⟩ := hn
  exact h m (Option.mem_toList.mpr hm)

/-- A variable that is assigned to keeps its mark if its name is not opened. -/
theorem target_recast (hs : s.scopes.Keyed) (t : Tree.Expr) (ht : Kept g t.name?.toList) :
    Recast g (Expr.recast g) (target s t) (target (s.recast g) (g.expr t)) := by
  unfold target
  rw [g.pos_expr]
  refine .bindOk (expression_recast g s t) fun e he => ?_
  cases e with
  | var v =>
    cases v with
    | none => exact .error _ t.pos
    | some v =>
      cases expression_finds t he with
      | @var n pos _ hfind =>
        have hname : v.name = n := hs.find? hfind
        have hmark : (v.recast g).readOnly = v.readOnly := by
          simp [Variable.recast, Variable.unlocked, Variable.renamed, hname, ht n List.mem_cons_self]
        exact .bind (.require (congrArg not hmark) _ pos) fun _ => .ok _
  | function f =>
    cases f with
    | none => exact .error _ t.pos
    | some f => exact .bind (.require rfl _ t.pos) fun _ => .ok _
  | member object field method type =>
    cases method with
    | none => exact .ok _
    | some m => exact .error _ t.pos
  | index => exact .ok _
  | _ => exact .error _ t.pos

theorem test_recast (t : Tree.Expr) :
    Recast g (Expr.recast g) (test t s) (test (g.expr t) (s.recast g)) := by
  unfold test
  rw [g.pos_expr]
  exact .bind (expression_recast g s t) fun e => .bind (requireBoolean_recast g e t.pos)
    fun _ => .ok _

theorem returned_recast (value : Option Tree.Expr) (pos : Pos) :
    Recast g (Typed.Stmt.recast g) (returned value pos s)
      (returned (value.map g.expr) (g.move pos) (s.recast g)) := by
  unfold returned
  rw [State.scopes_recast, Scopes.function_recast]
  cases s.scopes.function with
  | none => exact .error _ pos
  | some sig =>
    have hnone : (sig.renamed g.names).result.isPrim .none = sig.result.isPrim .none :=
      sig.result.isPrim_renamed g.names .none
    simp only [Option.map_some, hnone]
    split
    · cases value with
      | none => exact .ok _
      | some => exact .error _ pos
    · cases value with
      | none => exact .error _ pos
      | some t =>
        simp only [Option.map_some, g.pos_expr]
        exact .bind (expression_recast g s t) fun e =>
          .bind (requireAssignable_recast g e sig.result t.pos) fun _ => .ok _

/-- A collection and the type of its elements, recast. -/
def recastCollection (x : Expr × Ty) : Expr × Ty := (x.1.recast g, x.2.renamed g.names)

theorem collection_recast (e : Tree.Expr) :
    Recast g (recastCollection g)
      (do
        let collection ← expression s e
        return (collection, ← requireArray collection e.pos))
      (do
        let collection ← expression (s.recast g) (g.expr e)
        return (collection, ← requireArray collection (g.expr e).pos)) := by
  rw [g.pos_expr]
  exact .bind (expression_recast g s e) fun c => .bind (requireArray_recast g c e.pos) fun _ => .ok _

theorem signature_recast (scopes : Scopes) (params : List Tree.Param) (result : Option TypeExpr) :
    Recast g (Signature.renamed g.names) (signature scopes params result)
      (signature (scopes.recast g) (params.map g.param) (result.map g.type)) := by
  have hparams : Recast g (Ty.renamedAll g.names) (params.mapM fun p => resolve scopes p.type)
      ((params.map g.param).mapM fun p => resolve (scopes.recast g) p.type) := by
    induction params with
    | nil => exact .ok _
    | cons p rest ih =>
      simp only [List.map_cons, List.mapM_cons]
      exact .bind (resolve_recast g scopes p.type) fun _ => .bind ih fun _ => .ok _
  refine .bind hparams fun _ => ?_
  cases result with
  | none => exact .ok _
  | some t => exact .bind (resolve_recast g scopes t) fun _ => .ok _

theorem signature_plain (scopes : Scopes) (params : List Tree.Param) (result : Option TypeExpr) :
    signature (scopes.recast g.plain) params result = signature scopes params result := by
  have h := signature_recast g.plain scopes params result
  rw [g.map_param_plain, g.map_type_plain] at h
  exact h.trans (recastOutcome_plain g Signature.renamed_none _)

theorem fieldsOf_recast (scopes : Scopes) (taken : List Text) (fields : List Tree.Field) :
    Recast g (List.map fun f => (g.names f.1, f.2.renamed g.names)) (fieldsOf scopes taken fields)
      (fieldsOf (scopes.recast g) (taken.map g.names) (fields.map g.field)) := by
  induction fields generalizing taken with
  | nil => exact .ok _
  | cons x rest ih =>
    rw [List.map_cons, fieldsOf, fieldsOf]
    simp only [Recasting.field, g.names.contains_map]
    exact .bind (.require rfl _ x.pos) fun _ => .bind (resolve_recast g scopes x.type) fun _ =>
      .bind (ih (x.name :: taken)) fun _ => .ok _

/-- Members whose names and types do not change. -/
theorem map_members_none {f : β → β} (hf : ∀ b, f b = b) (members : List (Text × β)) :
    (members.map fun x => (Renaming.none x.1, f x.2)) = members := by
  have hid : (fun x : Text × β => (Renaming.none x.1, f x.2)) = id :=
    funext fun x => congrArg (Prod.mk x.1) (hf x.2)
  rw [hid, List.map_id]

theorem fieldsOf_plain (scopes : Scopes) (taken : List Text) (fields : List Tree.Field) :
    fieldsOf (scopes.recast g.plain) taken fields = fieldsOf scopes taken fields := by
  have h := fieldsOf_recast g.plain scopes taken fields
  have htaken : taken.map g.plain.names = taken := List.map_id' taken
  rw [g.map_field_plain, htaken] at h
  exact h.trans (recastOutcome_plain g (map_members_none Ty.renamed_none) _)

theorem methodsOf_recast (scopes : Scopes) (taken : List Text) {methods methods' : List Tree.Func}
    (h : List.Forall₂ g.Head methods methods') :
    Recast g (List.map fun m => (g.names m.1, m.2.renamed g.names)) (methodsOf scopes taken methods)
      (methodsOf (scopes.recast g) (taken.map g.names) methods') := by
  induction h generalizing taken with
  | nil => exact .ok _
  | @cons m m' _ _ hm _ ih =>
    simp only [methodsOf, hm.name, hm.params, hm.result, hm.pos, g.names.contains_map]
    exact .bind (.require rfl _ m.pos) fun _ => .bind (signature_recast g scopes m.params m.result)
      fun _ => .bind (ih (m.name :: taken)) fun _ => .ok _

theorem methodsOf_plain (scopes : Scopes) (taken : List Text) (methods : List Tree.Func) :
    methodsOf (scopes.recast g.plain) taken methods = methodsOf scopes taken methods := by
  have h := methodsOf_recast g.plain scopes taken (g.forall_head_plain methods)
  have htaken : taken.map g.plain.names = taken := List.map_id' taken
  rw [htaken] at h
  exact h.trans (recastOutcome_plain g (map_members_none Signature.renamed_none) _)

end Expressions

section Statements

variable {s u : State}

/-- States that are the same once the first is recast, up to the marks on variables whose names are
opened. -/
structure Alike (s u : State) : Prop where
  keyed : s.scopes.Keyed
  keyed' : u.scopes.Keyed
  same : s.recast g = u.recast g.plain

namespace Alike

variable {g}

theorem start : Alike g .start .start where
  keyed := State.start_keyed
  keyed' := State.start_keyed
  same := by rw [State.start_recast, State.start_recast]

theorem enter (h : Alike g s u) (o : Scope.Overrides) :
    Alike g (s.enter o) (u.enter (o.renamed g.names)) where
  keyed := h.keyed.push o
  keyed' := h.keyed'.push _
  same := by
    have hplain := State.enter_recast g.plain u (o.renamed g.names)
    rw [show g.plain.names = .none from rfl, Scope.Overrides.renamed_none] at hplain
    rw [← State.enter_recast, h.same, hplain]

theorem leave (h : Alike g s u) : Alike g s.leave u.leave where
  keyed := h.keyed.pop
  keyed' := h.keyed'.pop
  same := by rw [← State.leave_recast, h.same, State.leave_recast]

theorem bind (h : Alike g s u) {name : Text} {e e' : Entity} (he : e.recast g = e'.recast g.plain)
    (hname : e.name = name) (hname' : e'.name = g.names name) :
    Alike g { s with scopes := s.scopes.bind name e }
      { u with scopes := u.scopes.bind (g.names name) e' } where
  keyed := h.keyed.bind hname
  keyed' := h.keyed'.bind hname'
  same := by
    have hplain := State.bind_recast g.plain u (g.names name) e'
    rw [← State.bind_recast, h.same, he]
    exact hplain

end Alike

/-- The second analysis is the first one recast, also after a fault. What the first one finds is seen
through `v`, and what the second one finds through `v'`. -/
def Recasts (v v' : α → β) (m m' : Analyze α) : Prop :=
  ∀ s u, Alike g s u →
    recastOutcome g v (m s).1 = recastOutcome g.plain v' (m' u).1 ∧ Alike g (m s).2 (m' u).2

namespace Recasts

variable {g} {v v' : α → β} {w w' : γ → δ}

theorem pure {a b : α} (h : v a = v' b) : Recasts g v v' (Pure.pure a) (Pure.pure b) :=
  fun _ _ hs => ⟨congrArg Except.ok h, hs⟩

theorem bind {m m' : Analyze α} {k k' : α → Analyze γ} (hm : Recasts g v v' m m')
    (hk : ∀ a b, v a = v' b → Recasts g w w' (k a) (k' b)) : Recasts g w w' (m >>= k) (m' >>= k') := by
  intro s u hs
  obtain ⟨hresult, hstate⟩ := hm s u hs
  rw [bind_run, bind_run]
  generalize m s = first at hresult hstate ⊢
  generalize m' u = first' at hresult hstate ⊢
  obtain ⟨x, t⟩ := first
  obtain ⟨x', t'⟩ := first'
  cases x with
  | error e =>
    cases x' with
    | error e' => exact ⟨congrArg Except.error (Except.error.inj hresult), hstate⟩
    | ok b => cases hresult
  | ok a =>
    cases x' with
    | error e' => cases hresult
    | ok b => exact hk a b (Except.ok.inj hresult) t t' hstate

/-- Analyses that only read the state. -/
theorem reading {f f' : State → Except SemanticError α} {v v' : α → α}
    (hf : ∀ s : State, s.scopes.Keyed → Recast g v (f s) (f' (s.recast g)))
    (hf' : ∀ u : State, u.scopes.Keyed → Recast g.plain v' (f' u) (f' (u.recast g.plain))) :
    Recasts g v v' (reading f) (reading f') := by
  intro s u hs
  rw [reading_run, reading_run]
  exact ⟨(hf s hs.keyed).symm.trans ((congrArg f' hs.same).trans (hf' u hs.keyed')), hs⟩

/-- Analyses that only read the state, and no mark on a variable. -/
theorem readingUnmarked {f f' : State → Except SemanticError α} {v : α → α}
    (hf : ∀ s : State, Recast g v (f s) (f' (s.recast g)))
    (hf' : ∀ u : State, f' (u.recast g.plain) = f' u) :
    Recasts g v id (Analysis.reading f) (Analysis.reading f') := by
  refine .reading (fun s _ => hf s) fun u _ => ?_
  exact (hf' u).trans (recastOutcome_plain g (fun _ => rfl) _).symm

theorem within {m m' : Analyze α} (o : Scope.Overrides) (hm : Recasts g v v' m m') :
    Recasts g v v' (within o m) (within (o.renamed g.names) m') := by
  intro s u hs
  obtain ⟨hresult, hstate⟩ := hm _ _ (hs.enter o)
  exact ⟨hresult, hstate.leave⟩

theorem fresh : Recasts g id id fresh fresh := by
  intro s u hs
  have hsame := congrArg (fun s : State => { s with nextId := s.nextId + 1 }) hs.same
  have hnext : (s.recast g).nextId = (u.recast g.plain).nextId := congrArg State.nextId hs.same
  exact ⟨congrArg Except.ok hnext, hs.keyed, hs.keyed', hsame⟩

theorem declare {name : Text} {e e' : Entity} (he : e.recast g = e'.recast g.plain)
    (hname : e.name = name) (hname' : e'.name = g.names name) (pos : Pos) :
    Recasts g id id (declare name e pos) (declare (g.names name) e' (g.move pos)) := by
  intro s u hs
  have hscopes : s.scopes.recast g = u.scopes.recast g.plain := congrArg State.scopes hs.same
  have hfound : (s.scopes.findLocal? name).isSome = (u.scopes.findLocal? (g.names name)).isSome := by
    have hplain := u.scopes.findLocal?_recast g.plain (g.names name)
    rw [← Option.isSome_map, ← Scopes.findLocal?_recast, hscopes]
    exact (congrArg Option.isSome hplain).trans Option.isSome_map
  rw [declare_run, declare_run, Scopes.add?, Scopes.add?, hfound]
  cases (u.scopes.findLocal? (g.names name)).isSome with
  | true => exact ⟨rfl, hs⟩
  | false => exact ⟨rfl, hs.bind he hname hname'⟩

theorem redeclare {name : Text} {e e' : Entity} (he : e.recast g = e'.recast g.plain)
    (hname : e.name = name) (hname' : e'.name = g.names name) :
    Recasts g id id (redeclare name e) (redeclare (g.names name) e') :=
  fun _ _ hs => ⟨rfl, hs.bind he hname hname'⟩

theorem register (c : Class) : Recasts g id id (register c) (register (c.renamed g.names)) := by
  intro s u hs
  have hplain := State.register_recast g.plain u (c.renamed g.names)
  rw [show g.plain.names = .none from rfl, Class.renamed_none, ← hs.same, State.register_recast] at hplain
  exact ⟨rfl, hs.keyed, hs.keyed', hplain⟩

theorem declareVariable (name : Text) (type : Ty) {readOnly readOnly' : Bool} (pos : Pos)
    (h : (!g.opens (g.names name) && readOnly) = (!g.opens (g.names name) && readOnly')) :
    Recasts g (Variable.recast g) (Variable.recast g.plain) (declareVariable name type readOnly pos)
      (declareVariable (g.names name) (type.renamed g.names) readOnly' (g.move pos)) := by
  refine .bind .fresh fun n _ hn => ?_
  obtain rfl : n = _ := hn
  have hv : Variable.recast g ⟨n, name, type, readOnly, false⟩ =
      Variable.recast g.plain ⟨n, g.names name, type.renamed g.names, readOnly', false⟩ := by
    have htype := (type.renamed g.names).renamed_none
    exact congrArg₂ (fun t mark => Variable.mk n (g.names name) t mark false) htype.symm h
  have he : Entity.recast g (.var ⟨n, name, type, readOnly, false⟩) =
      Entity.recast g.plain (.var ⟨n, g.names name, type.renamed g.names, readOnly', false⟩) :=
    congrArg Entity.var hv
  exact .bind (.declare he rfl rfl pos) fun _ _ _ => .pure hv

end Recasts

def recastParams (params : List (Option Variable)) : List (Option Variable) :=
  (params.map (Option.map (Variable.renamed g.names))).map (Option.map (Variable.unlocked g.opens))

abbrev FunctionBody := List (Option Variable) × List Typed.Stmt

/-- The parameters and the body of a function, recast. -/
def recastBody (x : FunctionBody) : FunctionBody := (recastParams g x.1, Typed.Stmt.recastAll g x.2)

theorem declareParams_recast (params : List Tree.Param) (types : List Ty) :
    Recasts g (fun vs => recastParams g (vs.map some)) (fun vs => recastParams g.plain (vs.map some))
      (declareParams params types)
      (declareParams (params.map g.param) (Ty.renamedAll g.names types)) := by
  induction params generalizing types with
  | nil => exact .pure rfl
  | cons p params ih =>
    cases types with
    | nil => exact .pure rfl
    | cons type types =>
      refine .bind (.declareVariable p.name type p.pos rfl) fun v v' hv => ?_
      exact .bind (ih types) fun vs vs' hvs => .pure (congrArg₂ (fun x xs => some x :: xs) hv hvs)

theorem functionBody_recast (params : List Tree.Param) (sig : Signature) (o : Scope.Overrides)
    {body body' : Analyze (List Typed.Stmt)}
    (hbody : Recasts g (Typed.Stmt.recastAll g) (Typed.Stmt.recastAll g.plain) body body') :
    Recasts g (recastBody g) (recastBody g.plain) (functionBody params sig o body)
      (functionBody (params.map g.param) (sig.renamed g.names) (o.renamed g.names) body') := by
  refine .within o (.bind (declareParams_recast g params sig.params) fun vs vs' hvs => ?_)
  exact .bind hbody fun b b' hb => .pure (congrArg₂ Prod.mk hvs hb)

theorem declareFunction_recast (name : Text) (params : List Tree.Param) (result : Option TypeExpr)
    (pos : Pos) :
    Recasts g (fun x => (x.1.renamed g.names, x.2.renamed g.names)) id
      (declareFunction name params result pos)
      (declareFunction (g.names name) (params.map g.param) (result.map g.type) (g.move pos)) := by
  refine .bind .fresh fun n _ hn => ?_
  obtain rfl : n = _ := hn
  have hhead : Entity.recast g (.function ⟨n, name, none, false⟩) =
      Entity.recast g.plain (.function ⟨n, g.names name, none, false⟩) := rfl
  refine .bind (.declare hhead rfl rfl pos) fun _ _ _ => ?_
  refine .bind (.readingUnmarked (fun s => signature_recast g s.scopes params result)
    fun u => signature_plain g u.scopes _ _) fun sig sig' hsig => ?_
  obtain rfl : sig.renamed g.names = sig' := hsig
  have he : Entity.recast g (.function ⟨n, name, some sig, false⟩) =
      Entity.recast g.plain (.function ⟨n, g.names name, some (sig.renamed g.names), false⟩) :=
    congrArg Entity.function (Function.renamed_none _).symm
  exact .bind (.redeclare he rfl rfl) fun _ _ _ => .pure rfl

theorem declareClass_recast (name : Text) (fields : List Tree.Field) (pos : Pos)
    {methods methods' : List Tree.Func} (hmethods : List.Forall₂ g.Head methods methods') :
    Recasts g (fun x => (x.1.renamed g.names, x.2.map (Signature.renamed g.names))) id
      (declareClass name fields methods pos)
      (declareClass (g.names name) (fields.map g.field) methods' (g.move pos)) := by
  have hnames : (fields.map g.field).map Tree.Field.name = (fields.map Tree.Field.name).map g.names := by
    rw [List.map_map, List.map_map]
    rfl
  refine .bind .fresh fun n _ hn => ?_
  obtain rfl : n = _ := hn
  have hhead : Entity.recast g (.type name (.cls ⟨n, name⟩)) =
      Entity.recast g.plain (.type (g.names name) (.cls ⟨n, g.names name⟩)) := rfl
  refine .bind (.declare hhead rfl rfl pos) fun _ _ _ => ?_
  refine .bind (.readingUnmarked (fun s => fieldsOf_recast g s.scopes [] fields)
    fun u => fieldsOf_plain g u.scopes _ _) fun xs xs' hxs => ?_
  rw [hnames]
  refine .bind (.readingUnmarked (fun s => methodsOf_recast g s.scopes _ hmethods)
    fun u => methodsOf_plain g u.scopes _ _) fun ms ms' hms => ?_
  obtain rfl : _ = xs' := hxs
  obtain rfl : _ = ms' := hms
  have hsome : (ms.map fun m => (g.names m.1, m.2.renamed g.names)).map (fun m => (m.1, some m.2)) =
      (ms.map fun m => (m.1, some m.2)).map
        fun m => (g.names m.1, m.2.map (Signature.renamed g.names)) := by
    rw [List.map_map, List.map_map]
    rfl
  have hclass := Class.ofMembers_renamed g.names ⟨n, name⟩ xs (ms.map fun m => (m.1, some m.2))
  rw [← hsome] at hclass
  have hsignatures : (ms.map fun m => (g.names m.1, m.2.renamed g.names)).map Prod.snd =
      (ms.map Prod.snd).map (Signature.renamed g.names) := by
    rw [List.map_map, List.map_map]
    rfl
  have hregister := Recasts.register (g := g)
    (Class.ofMembers ⟨n, name⟩ xs (ms.map fun m => (m.1, some m.2)))
  rw [← hclass] at hregister
  exact .bind hregister fun _ _ _ => .pure (congrArg₂ Prod.mk hclass.symm hsignatures.symm)

/-- A statement that leaves the state as it is, and what it is recast to. -/
inductive Inert : Tree.Stmt → Tree.Stmt → Prop
  | assign (place value : Tree.Expr) (p : Pos) (h : Kept g place.name?.toList) :
    Inert (.assign place value p) (.assign (g.expr place) (g.expr value) (g.move p))
  | bump (op : BumpOp) (place : Tree.Expr) (p : Pos) (h : Kept g place.name?.toList) :
    Inert (.bump op place p) (.bump op (g.expr place) (g.move p))
  | leave (p : Pos) : Inert (.leave p) (.leave (g.move p))
  | ret (value : Option Tree.Expr) (p : Pos) : Inert (.ret value p) (.ret (value.map g.expr) (g.move p))
  | print (value : Tree.Expr) (p : Pos) : Inert (.print value p) (.print (g.expr value) (g.move p))
  | call (callee : Tree.Expr) (args : List Tree.Expr) (q p : Pos) :
    Inert (.call callee args q p) (.call (g.expr callee) (g.exprs args) (g.move q) (g.move p))

namespace Inert

variable {g} {t t' : Tree.Stmt}

theorem plain (h : Inert g t t') : Inert g.plain t' t' := by
  cases h with
  | assign place value p h => exact .assign (g.expr place) (g.expr value) (g.move p) h.plain
  | bump op place p h => exact .bump op (g.expr place) (g.move p) h.plain
  | leave p => exact .leave (g.move p)
  | ret value p =>
    have h := ret (g := g.plain) (value.map g.expr) (g.move p)
    rwa [g.map_expr_plain] at h
  | print value p => exact .print (g.expr value) (g.move p)
  | call callee args q p => exact .call (g.expr callee) (g.exprs args) (g.move q) (g.move p)

theorem state_eq (h : Inert g t t') (s : State) : (statement t s).2 = s := by
  cases h <;> exact congrArg Prod.snd (reading_run _ s)

theorem statement_recast (h : Inert g t t') {s : State} (hs : s.scopes.Keyed) :
    Recast g (Typed.Stmt.recast g) (statement t s).1 (statement t' (s.recast g)).1 := by
  cases h with
  | assign place value p h =>
    simp only [statement, reading_run, g.pos_expr]
    refine .bind (target_recast g s hs place h) fun target => .bind (expression_recast g s value)
      fun source => ?_
    rw [Expr.type_recast]
    exact .bind (requireAssignable_recast g source target.type value.pos) fun _ => .ok _
  | bump op place p h =>
    simp only [statement, reading_run, g.pos_expr]
    exact .bind (target_recast g s hs place h) fun target =>
      .bind (requireInteger_recast g target place.pos) fun _ => .ok _
  | leave p =>
    simp only [statement, reading_run]
    exact .bind (.require (s.scopes.inLoop_recast g) _ p) fun _ => .ok _
  | ret value p =>
    simp only [statement, reading_run]
    exact returned_recast g s value p
  | print value p =>
    simp only [statement, reading_run]
    exact .bind (expression_recast g s value) fun _ => .ok _
  | call callee args q p =>
    simp only [statement, reading_run]
    exact .bind (call_recast g s callee args q) fun _ => .ok _

theorem recasts (h : Inert g t t') :
    Recasts g (Typed.Stmt.recast g) (Typed.Stmt.recast g.plain) (statement t) (statement t') := by
  intro s u hs
  have hs' := h.statement_recast hs.keyed
  have hu := h.plain.statement_recast hs.keyed'
  rw [← hs.same] at hu
  rw [h.state_eq, h.plain.state_eq]
  exact ⟨hs'.symm.trans hu, hs⟩

end Inert

variable {g} (m : g.Statements)

mutual

theorem statement_recast (t : Tree.Stmt) (ht : Kept g t.writes) :
    Recasts g (Typed.Stmt.recast g) (Typed.Stmt.recast g.plain) (statement t) (statement (m.stmt t)) := by
  cases t with
  | declare name readOnly value pos =>
    simp only [m.stmt_declare, statement]
    refine .bind (.reading (fun s _ => expression_recast g s value)
      fun u _ => expression_recast g.plain u (g.expr value)) fun e e' he => ?_
    have htype : e'.type = e.type.renamed g.names := by
      rw [← Expr.type_recast, he, Expr.type_recast]
      exact e'.type.renamed_none.symm
    have hmark : (!g.opens (g.names name) && readOnly) =
        (!g.opens (g.names name) && (!g.opens (g.names name) && readOnly)) := by
      rw [← Bool.and_assoc, Bool.and_self]
    rw [htype]
    exact .bind (.declareVariable name e.type pos hmark) fun v v' hv =>
      .pure (congrArg₂ (fun x y => Typed.Stmt.declare (some x) y) hv he)
  | function decl =>
    obtain ⟨name, params, result, body, bodyPos, pos⟩ := decl
    simp only [m.stmt_function, m.func_mk, statement]
    refine .bind (declareFunction_recast g name params result pos) fun x x' hx => ?_
    obtain rfl : _ = x' := hx
    have hf := (x.1.renamed g.names).renamed_none
    exact .bind (functionBody_recast g params x.2 (.ofFunction (some x.2)) (statements_recast body ht))
      fun y y' hy => .pure (congrArg₂ (fun (f : Function) (b : FunctionBody) =>
        Typed.Stmt.function (some f) b.1 b.2) hf.symm hy)
  | cls name fields methods pos =>
    simp only [m.stmt_cls, statement]
    refine .bind (declareClass_recast g name fields pos (m.forall_head methods)) fun x x' hx => ?_
    obtain rfl : _ = x' := hx
    have hc := (x.1.renamed g.names).renamed_none
    exact .bind (methodBodies_recast x.1.ref methods x.1.methods x.2 ht) fun y y' hy =>
      .pure (congrArg₂ (fun c b => Typed.Stmt.cls (some c) b) hc.symm hy)
  | assign place value p =>
    rw [m.stmt_assign]
    exact (Inert.assign place value p ht).recasts
  | bump op place p =>
    rw [m.stmt_bump]
    exact (Inert.bump op place p ht).recasts
  | branch decision =>
    simp only [m.stmt_branch, statement]
    exact branch_recast decision ht
  | loop e body bodyPos pos =>
    simp only [m.stmt_loop, statement]
    refine .bind (.reading (fun s _ => test_recast g s e) fun u _ => test_recast g.plain u (g.expr e))
      fun t t' ht' => ?_
    exact .bind (.within .ofLoop (statements_recast body ht)) fun b b' hb =>
      .pure (congrArg₂ Typed.Stmt.loop ht' hb)
  | forEach name namePos e body bodyPos pos =>
    simp only [m.stmt_forEach, statement]
    refine .bind (.reading (fun s _ => collection_recast g s e)
      fun u _ => collection_recast g.plain u (g.expr e)) fun (c, base) (c', base') hx => ?_
    obtain ⟨hc, hbase⟩ := Prod.mk.inj hx
    obtain rfl : base.renamed g.names = base' := hbase.trans base'.renamed_none
    refine .within .ofLoop (.bind (.declareVariable name base pos rfl) fun v v' hv => ?_)
    have hhead := congrArg₂ (fun w c => Typed.Stmt.forEach (some w) c) hv hc
    exact .bind (statements_recast body ht) fun b b' hb => .pure (congr hhead hb :)
  | leave p =>
    rw [m.stmt_leave]
    exact (Inert.leave p).recasts
  | ret value p =>
    rw [m.stmt_ret]
    exact (Inert.ret value p).recasts
  | print value p =>
    rw [m.stmt_print]
    exact (Inert.print value p).recasts
  | call callee args q p =>
    rw [m.stmt_call]
    exact (Inert.call callee args q p).recasts

theorem branch_recast (b : Tree.Branch) (hb : Kept g b.writes) :
    Recasts g (Typed.Stmt.recast g) (Typed.Stmt.recast g.plain) (branch b) (branch (m.branch b)) := by
  obtain ⟨e, body, bodyPos, otherwise, pos⟩ := b
  obtain ⟨hbody, hotherwise⟩ := List.forall_mem_append.mp hb
  simp only [m.branch_mk, branch]
  refine .bind (.reading (fun s _ => test_recast g s e) fun u _ => test_recast g.plain u (g.expr e))
    fun t t' ht => ?_
  refine .bind (.within .nothing (statements_recast body hbody)) fun c c' hc => ?_
  refine .bind (alternate_recast otherwise hotherwise) fun a a' ha => ?_
  cases a with
  | none =>
    cases a' with
    | none => exact .pure (congrArg₂ Typed.Stmt.shortBranch ht hc)
    | some => cases ha
  | some =>
    cases a' with
    | none => cases ha
    | some =>
      have hhead := congrArg₂ Typed.Stmt.branch ht hc
      exact .pure (congr hhead (Option.some.inj ha :) :)

theorem alternate_recast (o : Tree.Otherwise) (ho : Kept g o.writes) :
    Recasts g (Option.map (Typed.Stmt.recastAll g)) (Option.map (Typed.Stmt.recastAll g.plain))
      (alternate o) (alternate (m.otherwise o)) := by
  cases o with
  | nothing =>
    rw [m.otherwise_nothing]
    exact .pure rfl
  | block body =>
    simp only [m.otherwise_block, alternate]
    exact .bind (.within .nothing (statements_recast body ho)) fun b b' hb => .pure (congrArg some hb)
  | chain next =>
    simp only [m.otherwise_chain, alternate]
    exact .bind (branch_recast next ho) fun b b' hb => .pure (congrArg (fun x => some [x]) hb)

theorem statements_recast (ts : List Tree.Stmt) (hts : Kept g (Tree.Stmt.writesOfAll ts)) :
    Recasts g (Typed.Stmt.recastAll g) (Typed.Stmt.recastAll g.plain) (statements ts)
      (statements (m.stmts ts)) := by
  cases ts with
  | nil =>
    rw [m.stmts_nil]
    exact .pure rfl
  | cons t rest =>
    obtain ⟨ht, hrest⟩ := List.forall_mem_append.mp hts
    simp only [m.stmts_cons, statements]
    exact .bind (statement_recast t ht) fun x x' hx => .bind (statements_recast rest hrest)
      fun xs xs' hxs => .pure (congrArg₂ List.cons hx hxs)

theorem methodBodies_recast (ref : ClassRef) (funcs : List Tree.Func) (methods : List (Option Method))
    (signatures : List Signature) (hfuncs : Kept g (Tree.Func.writesOfAll funcs)) :
    Recasts g (Typed.MethodBody.recastAll g) (Typed.MethodBody.recastAll g.plain)
      (methodBodies ref funcs methods signatures)
      (methodBodies (ref.renamed g.names) (m.funcs funcs)
        (methods.map (Option.map (Method.renamed g.names)))
        (signatures.map (Signature.renamed g.names))) := by
  cases funcs with
  | nil =>
    rw [m.funcs_nil]
    exact .pure rfl
  | cons func funcs =>
    obtain ⟨hfunc, hrest⟩ := List.forall_mem_append.mp hfuncs
    obtain ⟨name, params, result, body, bodyPos, pos⟩ := func
    rw [m.funcs_cons, m.func_mk]
    cases methods with
    | nil => exact .pure rfl
    | cons method methods =>
      cases signatures with
      | nil => exact .pure rfl
      | cons sig signatures =>
        have hm : (method.map (Method.renamed g.names)).map (Method.renamed .none) =
            method.map (Method.renamed g.names) := by
          rw [funext Method.renamed_none, Option.map_id']
        simp only [List.map_cons, methodBodies]
        refine .bind (functionBody_recast g params sig (.ofMethod (some ref) (some sig))
          (statements_recast body hfunc)) fun x x' hx => ?_
        refine .bind (methodBodies_recast ref funcs methods signatures hrest) fun y y' hy => .pure ?_
        exact congrArg₂ List.cons (congrArg₂ (fun (m : Option Method) (b : FunctionBody) =>
          Typed.MethodBody.mk m b.1 b.2) hm.symm hx) hy

end

/-- The analysis of a recast program finds what the analysis of the program finds, recast, up to the marks
on variables whose names are opened. -/
theorem analyze_recast (program : Tree.Program) (h : Kept g (Tree.Stmt.writesOfAll program)) :
    recastOutcome g (Typed.Stmt.recastAll g) (analyze program) =
      recastOutcome g.plain (Typed.Stmt.recastAll g.plain) (analyze (m.stmts program)) :=
  (statements_recast m program h .start .start .start).1

/-- Where no name is opened, nothing is lost. -/
theorem analyze_recast_unopened (hopens : g.opens = fun _ => false) (program : Tree.Program) :
    analyze (m.stmts program) =
      recastOutcome g (Typed.Program.renamed g.names) (analyze program) := by
  have hall (r : Renaming) (ss : List Typed.Stmt) :
      Typed.Stmt.unlockedAll g.opens (Typed.Stmt.renamedAll r ss) = Typed.Stmt.renamedAll r ss := by
    rw [hopens, Typed.Stmt.unlockedAll_none]
  have hplain (ss : List Typed.Stmt) : Typed.Stmt.recastAll g.plain ss = ss :=
    (hall .none ss).trans (Typed.Stmt.renamedAll_none ss)
  have h := analyze_recast m program fun n _ => by rw [hopens]
  rw [recastOutcome_plain g hplain] at h
  rw [← h, show Typed.Stmt.recastAll g = Typed.Program.renamed g.names from funext (hall g.names)]

end Statements

end Analysis

end PeakLang
