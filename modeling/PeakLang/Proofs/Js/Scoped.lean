import PeakLang.Proofs.Analysis.Closed
import PeakLang.Proofs.Js.Numbering

namespace PeakLang.Js

open Typed (Binder)

/-- What may be referred to at a point of a program: names, and the members of objects. -/
structure Env where
  names : List Text
  members : List Text

namespace Env

/-- Nothing is declared. -/
def empty : Env := ⟨[], []⟩

/-- Declarations in front of others. -/
def append (env env' : Env) : Env := ⟨env.names ++ env'.names, env.members ++ env'.members⟩

end Env

namespace Expr

/-- The name that an expression declares where it stands for a name. -/
def declared : Expr → List Text
  | name n => [n]
  | _ => []

/-- Whether an expression is a name, as every declaration needs one. -/
def IsName (e : Expr) : Prop := ∃ n, e = .name n

/-- Whether an expression names a member of an object, of a declared class or a built-in one. -/
def IsMember (env : Env) : Expr → Prop
  | name n => n ∈ env.members
  | code _ => True
  | _ => False

mutual

/-- Whether every name in an expression is declared. Text that stands for itself is built in. -/
def Scoped (env : Env) : Expr → Prop
  | undefined | int _ | float _ | string _ | bool _ | code _ | this => True
  | dangling => False
  | name n => n ∈ env.names
  | paren inner => inner.Scoped env
  | unary _ operand => operand.Scoped env
  | binary _ left right => left.Scoped env ∧ right.Scoped env
  | conditional test consequent alternate =>
    test.Scoped env ∧ consequent.Scoped env ∧ alternate.Scoped env
  | call callee args => callee.Scoped env ∧ ScopedAll env args
  | new cls args => cls.Scoped env ∧ ScopedAll env args
  | index object i => object.Scoped env ∧ i.Scoped env
  | member object m => object.Scoped env ∧ m.IsMember env
  | array elements => ScopedAll env elements

def ScopedAll (env : Env) : List Expr → Prop
  | [] => True
  | e :: rest => e.Scoped env ∧ ScopedAll env rest

end

end Expr

/-- Names that parameters or the variable of a loop declare. -/
def Env.ofNames (names : List Expr) : Env := ⟨names.flatMap Expr.declared, []⟩

def Method.name : Method → Expr
  | .mk name _ _ => name

/-- What a statement declares for the statements after it. -/
def Stmt.declared : Stmt → Env
  | .declare name _ => .ofNames [name]
  | .function name _ _ => .ofNames [name]
  | .cls name fields methods =>
    ⟨name.declared, (fields ++ methods.map Method.name).flatMap Expr.declared⟩
  | _ => .empty

mutual

/-- Whether every name in a statement is declared before its use, where `env` is declared before the
statement. -/
def Stmt.Scoped (env : Env) : Stmt → Prop
  | .declare name init => name.IsName ∧ init.Scoped env
  | .function name params body =>
    name.IsName ∧ (∀ p ∈ params, p.IsName) ∧
      Stmt.ScopedAll ((Env.ofNames params).append ((Env.ofNames [name]).append env)) body
  | .cls name fields methods =>
    name.IsName ∧ (∀ f ∈ fields, f.IsName) ∧
      Method.ScopedAll ((Stmt.cls name fields methods).declared.append env) methods
  | .assign target source => target.Scoped env ∧ source.Scoped env
  | .bump _ target => target.Scoped env
  | .branch decision => decision.Scoped env
  | .loop test body => test.Scoped env ∧ Stmt.ScopedAll env body
  | .forOf name collection body =>
    name.IsName ∧ collection.Scoped env ∧ Stmt.ScopedAll ((Env.ofNames [name]).append env) body
  | .leave | .ret none => True
  | .ret (some value) => value.Scoped env
  | .log value => value.Scoped env
  | .eval value => value.Scoped env

def Method.Scoped (env : Env) : Method → Prop
  | .mk name params body =>
    name.IsName ∧ (∀ p ∈ params, p.IsName) ∧ Stmt.ScopedAll ((Env.ofNames params).append env) body

def Branch.Scoped (env : Env) : Branch → Prop
  | .mk test body otherwise =>
    test.Scoped env ∧ Stmt.ScopedAll env body ∧ otherwise.Scoped env

def Otherwise.Scoped (env : Env) : Otherwise → Prop
  | .nothing => True
  | .block body => Stmt.ScopedAll env body
  | .chain next => next.Scoped env

def Stmt.ScopedAll (env : Env) : List Stmt → Prop
  | [] => True
  | s :: rest => s.Scoped env ∧ Stmt.ScopedAll (s.declared.append env) rest

def Method.ScopedAll (env : Env) : List Method → Prop
  | [] => True
  | m :: rest => m.Scoped env ∧ Method.ScopedAll env rest

end

/-- Whether every name in a program is declared before its use. -/
def Program.Scoped (program : Program) : Prop := Stmt.ScopedAll .empty program

/-- What is declared after statements in a row. -/
def Env.after (env : Env) : List Stmt → Env
  | [] => env
  | s :: rest => (s.declared.append env).after rest

theorem Stmt.scopedAll_append {env : Env} {ss ts : List Stmt} (hs : Stmt.ScopedAll env ss)
    (ht : Stmt.ScopedAll (env.after ss) ts) : Stmt.ScopedAll env (ss ++ ts) := by
  induction ss generalizing env with
  | nil => exact ht
  | cons s rest ih => exact ⟨hs.1, ih hs.2 ht⟩

theorem Env.after_append (env : Env) (ss ts : List Stmt) :
    env.after (ss ++ ts) = (env.after ss).after ts := by
  induction ss generalizing env with
  | nil => rfl
  | cons s rest ih => exact ih _

theorem otherwiseOf_scoped {env : Env} {count : Nat} {body : List Stmt}
    (h : Stmt.ScopedAll env body) : (otherwiseOf count body).Scoped env := by
  unfold otherwiseOf
  split
  · exact h.1
  · exact h

end PeakLang.Js

namespace PeakLang.Typed.Binder

open Js (EntityKey)

/-- What the bound entity gets its name by. -/
def key : Binder → EntityKey
  | var v => .var v.id
  | function f => .function f.id
  | cls c => .cls c.ref.id

/-- What the members of a bound class get their names by. -/
def memberKeys : Binder → List EntityKey
  | cls c =>
    (c.fields.map fun f => .field f.owner f.place) ++
      c.methods.filterMap fun m => m.map fun m => .method m.owner m.place
  | _ => []

end PeakLang.Typed.Binder

namespace PeakLang.Js

open Typed (Binder)

variable {spell : EntityKey → Text} {binders : List Binder} {env env' : Env}

/-- Every bound entity is spelled by a name that is declared, and so is every member of a bound class. -/
structure Named (spell : EntityKey → Text) (binders : List Binder) (env : Env) : Prop where
  own : ∀ b ∈ binders, b.builtin = false
  entity : ∀ b ∈ binders, spell b.key ∈ env.names
  member : ∀ b ∈ binders, ∀ key ∈ b.memberKeys, spell key ∈ env.members

namespace Named

theorem nil (spell : EntityKey → Text) (env : Env) : Named spell [] env :=
  ⟨List.forall_mem_nil _, List.forall_mem_nil _, List.forall_mem_nil _⟩

/-- Bound entities that have declared names are named in front of others. -/
theorem append {binders' : List Binder} (h : Named spell binders env)
    (h' : Named spell binders' env') : Named spell (binders' ++ binders) (env'.append env) where
  own := List.forall_mem_append.mpr ⟨h'.own, h.own⟩
  entity := List.forall_mem_append.mpr
    ⟨fun b hb => List.mem_append_left _ (h'.entity b hb),
      fun b hb => List.mem_append_right _ (h.entity b hb)⟩
  member := List.forall_mem_append.mpr
    ⟨fun b hb key hkey => List.mem_append_left _ (h'.member b hb key hkey),
      fun b hb key hkey => List.mem_append_right _ (h.member b hb key hkey)⟩

/-- A variable or a function is named where its name is declared. -/
theorem singleton {b : Binder} (hown : b.builtin = false) (hvalue : b.class? = none) :
    Named spell [b] (.ofNames [.name (spell b.key)]) where
  own := List.forall_mem_singleton.mpr hown
  entity := List.forall_mem_singleton.mpr (List.mem_singleton.mpr rfl)
  member := by
    refine List.forall_mem_singleton.mpr fun key hkey => ?_
    cases b with
    | var | function => cases hkey
    | cls => cases hvalue

end Named

section Declarations

theorem namedVar_own {v : Variable} (hown : v.builtin = false) :
    namedVar spell (some v) = .name (spell (.var v.id)) := by
  rw [namedVar, if_neg (by rw [hown]; exact Bool.false_ne_true)]

theorem namedFunction_own {f : Function} (hown : f.builtin = false) :
    namedFunction spell (some f) = .name (spell (.function f.id)) := by
  rw [namedFunction, if_neg (by rw [hown]; exact Bool.false_ne_true)]

/-- Parameters have names, and are named where those are declared. -/
theorem params_named {params : List (Option Variable)} (hthere : ∀ p ∈ params, ∃ v, p = some v)
    (hown : ∀ b ∈ Binder.ofVars params, b.builtin = false) :
    (∀ x ∈ params.map (namedVar spell), x.IsName) ∧
      Named spell (Binder.ofVars params) (.ofNames (params.map (namedVar spell))) := by
  have hname {v : Variable} (hv : some v ∈ params) :
      namedVar spell (some v) = .name (spell (.var v.id)) :=
    namedVar_own (hown (.var v) (List.mem_filterMap.mpr ⟨some v, hv, rfl⟩))
  have hvar : ∀ b ∈ Binder.ofVars params, ∃ v, some v ∈ params ∧ b = .var v := by
    intro b hb
    obtain ⟨p, hp, heq⟩ := List.mem_filterMap.mp hb
    obtain ⟨v, rfl⟩ := hthere p hp
    cases heq
    exact ⟨v, hp, rfl⟩
  refine ⟨List.forall_mem_map.mpr fun p hp => ?_, hown, fun b hb => ?_, fun b hb key hkey => ?_⟩
  · obtain ⟨v, rfl⟩ := hthere p hp
    exact ⟨_, hname hp⟩
  · obtain ⟨v, hv, rfl⟩ := hvar b hb
    refine List.mem_flatMap.mpr ⟨_, List.mem_map_of_mem hv, ?_⟩
    rw [hname hv]
    exact List.mem_singleton.mpr rfl
  · obtain ⟨v, hv, rfl⟩ := hvar b hb
    cases hkey

/-- A class is named where it is declared with its fields and the bodies of its methods. -/
theorem class_named {k : Class} {bodies : List Typed.MethodBody}
    (hall : bodies.map Typed.MethodBody.method = k.methods) :
    Named spell [.cls k]
      (Stmt.cls (namedClass spell (some k.ref)) (k.fields.map (namedField spell))
        (namedMethods spell bodies)).declared := by
  have hnames : (namedMethods spell bodies).map Method.name =
      (bodies.map Typed.MethodBody.method).map (namedMethod spell) := by
    clear hall
    induction bodies with
    | nil => rfl
    | cons body rest ih =>
      obtain ⟨method, params, body⟩ := body
      exact congrArg (namedMethod spell method :: ·) ih
  refine ⟨List.forall_mem_singleton.mpr rfl,
    List.forall_mem_singleton.mpr (List.mem_singleton.mpr rfl), List.forall_mem_singleton.mpr ?_⟩
  rw [Stmt.declared, hnames, hall]
  refine List.forall_mem_append.mpr ⟨List.forall_mem_map.mpr fun f hf => ?_, fun key hkey => ?_⟩
  · refine List.mem_flatMap.mpr ⟨namedField spell f, ?_, List.mem_singleton.mpr rfl⟩
    exact List.mem_append_left _ (List.mem_map_of_mem hf)
  · obtain ⟨m, hm, heq⟩ := List.mem_filterMap.mp hkey
    obtain ⟨n, rfl, rfl⟩ := Option.map_eq_some_iff.mp heq
    refine List.mem_flatMap.mpr ⟨namedMethod spell (some n), ?_, List.mem_singleton.mpr rfl⟩
    exact List.mem_append_right _ (List.mem_map_of_mem hm)

end Declarations

section Expressions

theorem memberValue_scoped {object name : Expr} {isField : Bool} (hobject : object.Scoped env)
    (hname : name.IsMember env) : (memberValue object name isField).Scoped env := by
  cases isField with
  | true => exact ⟨hobject, hname⟩
  | false => exact ⟨⟨⟨hobject, hname⟩, trivial⟩, hobject, trivial⟩

theorem operation_scoped {op : TokenKind} {signed : Bool} {left right : Expr} {type : Ty}
    (hleft : left.Scoped env) (hright : right.Scoped env) :
    (operation op signed left right type).Scoped env := by
  have hparen : (if op == .power && signed then Expr.paren left else left).Scoped env := by
    split <;> exact hleft
  unfold operation
  dsimp only
  split
  · exact ⟨trivial, ⟨hparen, hright⟩, trivial⟩
  · exact ⟨hparen, hright⟩

/-- A variable or a function that is referred to is built in, or bound and spelled by its name. -/
theorem reference_scoped {e : Entity} {b : Binder} (hnamed : Named spell binders env)
    (hflag : e.isBuiltin = b.builtin) (hbound : e ∈ Entity.builtins ∨ b ∈ binders) :
    (if b.builtin then builtin e.name else Expr.name (spell b.key)).Scoped env := by
  obtain hbuiltin | hbound := hbound
  · rw [if_pos (hflag ▸ Entity.builtin_of_mem e hbuiltin)]
    trivial
  · rw [if_neg (by rw [hnamed.own b hbound]; exact Bool.false_ne_true)]
    exact hnamed.entity b hbound

theorem fieldName_scoped {object type : Ty} {f : Field} {method : Option PeakLang.Method}
    (hnamed : Named spell binders env)
    (hrule : Typed.MemberRule (Binder.classes binders) object (some f) method type) :
    (namedField spell f).IsMember env := by
  cases hrule with
  | field hclass hfield =>
    exact hnamed.member _ (Binder.mem_classes.mp hclass) _
      (List.mem_append_left _ (List.mem_map.mpr ⟨f, hfield, rfl⟩))

theorem methodName_scoped {object type : Ty} {field : Option Field} {m : PeakLang.Method}
    (hnamed : Named spell binders env)
    (hrule : Typed.MemberRule (Binder.classes binders) object field (some m) type) :
    (namedMethod spell (some m)).IsMember env := by
  cases hrule with
  | method hclass hmethod =>
    exact hnamed.member _ (Binder.mem_classes.mp hclass) _
      (List.mem_append_right _ (List.mem_filterMap.mpr ⟨some m, hmethod, rfl⟩))

theorem method_of_no_field {classes : List Class} {object type : Ty} {method : Option PeakLang.Method}
    (hrule : Typed.MemberRule classes object none method type) : ∃ m, method = some m := by
  cases hrule with
  | method => exact ⟨_, rfl⟩

mutual

/-- A closed expression refers to declared names only. -/
theorem expr_scoped (hnamed : Named spell binders env) (e : Typed.Expr) (hclosed : e.Closed binders) :
    (namedExpr spell e).Scoped env := by
  cases e with
  | missing | int | float | string | bool | self | emptyArray => trivial
  | var v =>
    obtain ⟨w, rfl, hbound⟩ := hclosed
    exact reference_scoped (b := .var w) hnamed rfl hbound
  | function f =>
    obtain ⟨g, rfl, hbound⟩ := hclosed
    exact reference_scoped (b := .function g) hnamed rfl hbound
  | cls c type =>
    obtain ⟨k, hk, rfl, -⟩ := hclosed
    exact hnamed.entity _ hk
  | unary op operand type => exact expr_scoped hnamed operand hclosed
  | binary op left right type =>
    exact operation_scoped (expr_scoped hnamed left hclosed.1) (expr_scoped hnamed right hclosed.2)
  | conditional test consequent alternate type =>
    exact ⟨expr_scoped hnamed test hclosed.1, expr_scoped hnamed consequent hclosed.2.1,
      expr_scoped hnamed alternate hclosed.2.2⟩
  | call callee args type =>
    have hcallee := expr_scoped hnamed callee hclosed.1
    have hargs := exprs_scoped hnamed args hclosed.2
    cases callee with
    | member object field method type =>
      cases method with
      | some m =>
        obtain ⟨⟨hobject, hrule⟩, -⟩ := hclosed
        exact ⟨⟨expr_scoped hnamed object hobject, methodName_scoped hnamed hrule⟩, hargs⟩
      | none => exact ⟨hcallee, hargs⟩
    | _ => exact ⟨hcallee, hargs⟩
  | index object i type => exact ⟨expr_scoped hnamed object hclosed.1, expr_scoped hnamed i hclosed.2⟩
  | member object field method type =>
    obtain ⟨hobject, hrule⟩ := hclosed
    have hobject := expr_scoped hnamed object hobject
    cases field with
    | some f => exact memberValue_scoped hobject (fieldName_scoped hnamed hrule)
    | none =>
      obtain ⟨m, rfl⟩ := method_of_no_field hrule
      exact memberValue_scoped hobject (methodName_scoped hnamed hrule)
  | array elements type => exact exprs_scoped hnamed elements hclosed

theorem exprs_scoped (hnamed : Named spell binders env) (es : List Typed.Expr)
    (hclosed : Typed.Expr.ClosedAll binders es) : Expr.ScopedAll env (namedExprs spell es) := by
  cases es with
  | nil => trivial
  | cons e rest => exact ⟨expr_scoped hnamed e hclosed.1, exprs_scoped hnamed rest hclosed.2⟩

end

end Expressions

section Statements

variable {classes : List Class}

theorem params_there {params : List (Option Variable)} {sig : Signature}
    (h : Typed.ParamRule params sig) : ∀ p ∈ params, ∃ v, p = some v := by
  intro p hp
  have hmem : p.map Variable.type ∈ sig.params.map some := h ▸ List.mem_map_of_mem hp
  obtain ⟨t, -, ht⟩ := List.mem_map.mp hmem
  obtain ⟨v, hv, -⟩ := Option.map_eq_some_iff.mp ht.symm
  exact ⟨v, hv⟩

mutual

/-- A closed statement is generated with its names declared before their use, and declares the names
of what it binds. -/
theorem stmt_scoped (s : Typed.Stmt) {function : Option Signature} {binders : List Binder} {env : Env}
    (htyped : s.WellTyped classes function) (hclosed : s.Closed binders)
    (hown : ∀ b ∈ s.bound, b.builtin = false) (hnamed : Named spell binders env) :
    Stmt.ScopedAll env (namedStmt spell s) ∧
      Named spell (s.binders ++ binders) (env.after (namedStmt spell s)) := by
  cases s with
  | missing | missingCall => cases htyped
  | declare v init =>
    obtain ⟨-, w, rfl, -⟩ := htyped
    have hbuiltin := hown (.var w) List.mem_cons_self
    rw [namedStmt, namedVar_own hbuiltin]
    exact ⟨⟨⟨⟨_, rfl⟩, expr_scoped hnamed init hclosed⟩, trivial⟩,
      hnamed.append (.singleton hbuiltin rfl)⟩
  | function f params body =>
    obtain ⟨g, sig, rfl, -, -, hparams, hbody⟩ := htyped
    obtain ⟨hg, hinside⟩ := List.forall_mem_append.mp hown
    obtain ⟨hvars, hbound⟩ := List.forall_mem_append.mp hinside
    have hbuiltin := hg (.function g) List.mem_cons_self
    have hfunction := hnamed.append (.singleton hbuiltin rfl)
    obtain ⟨hnames, hvarsNamed⟩ := params_named (params_there hparams) hvars
    obtain ⟨hscoped, -⟩ := stmts_scoped body hbody hclosed hbound (hfunction.append hvarsNamed)
    rw [namedStmt, namedFunction_own hbuiltin]
    exact ⟨⟨⟨⟨_, rfl⟩, hnames, hscoped⟩, trivial⟩, hfunction⟩
  | cls c methods =>
    obtain ⟨k, -, rfl, hknown, hmethods, hbodies⟩ := htyped
    obtain ⟨-, hbound⟩ := List.forall_mem_append.mp hown
    have hinner := hnamed.append (class_named hmethods)
    have hscoped := methodBodies_scoped methods hbodies hclosed hbound hinner
    rw [namedStmt, classOf_of_isWhole hknown.isWhole]
    exact ⟨⟨⟨⟨_, rfl⟩, List.forall_mem_map.mpr fun f _ => ⟨_, rfl⟩, hscoped⟩, trivial⟩, hinner⟩
  | assign target source =>
    exact ⟨⟨⟨expr_scoped hnamed target hclosed.1, expr_scoped hnamed source hclosed.2⟩, trivial⟩,
      hnamed⟩
  | bump op target => exact ⟨⟨expr_scoped hnamed target hclosed, trivial⟩, hnamed⟩
  | branch test consequent alternate =>
    obtain ⟨-, -, hconsequent, halternate⟩ := htyped
    obtain ⟨hboundConsequent, hboundAlternate⟩ := List.forall_mem_append.mp hown
    obtain ⟨hthen, -⟩ := stmts_scoped consequent hconsequent hclosed.2.1 hboundConsequent hnamed
    obtain ⟨helse, -⟩ := stmts_scoped alternate halternate hclosed.2.2 hboundAlternate hnamed
    exact ⟨⟨⟨expr_scoped hnamed test hclosed.1, hthen, otherwiseOf_scoped helse⟩, trivial⟩, hnamed⟩
  | shortBranch test consequent =>
    obtain ⟨hthen, -⟩ := stmts_scoped consequent htyped.2.2 hclosed.2 hown hnamed
    exact ⟨⟨⟨expr_scoped hnamed test hclosed.1, hthen, trivial⟩, trivial⟩, hnamed⟩
  | loop test body =>
    obtain ⟨hbody, -⟩ := stmts_scoped body htyped.2.2 hclosed.2 hown hnamed
    exact ⟨⟨⟨expr_scoped hnamed test hclosed.1, hbody⟩, trivial⟩, hnamed⟩
  | forEach v collection body =>
    obtain ⟨-, ⟨w, rfl, -⟩, hbody⟩ := htyped
    obtain ⟨hw, hbound⟩ := List.forall_mem_append.mp hown
    have hbuiltin := hw (.var w) List.mem_cons_self
    have hinner := hnamed.append (.singleton hbuiltin rfl)
    obtain ⟨hscoped, -⟩ := stmts_scoped body hbody hclosed.2 hbound hinner
    rw [namedStmt, namedVar_own hbuiltin]
    exact ⟨⟨⟨⟨_, rfl⟩, expr_scoped hnamed collection hclosed.1, hscoped⟩, trivial⟩, hnamed⟩
  | leave => exact ⟨⟨trivial, trivial⟩, hnamed⟩
  | ret value =>
    have hvalue := expr_scoped hnamed value hclosed
    cases value with
    | missing => exact ⟨⟨trivial, trivial⟩, hnamed⟩
    | _ => exact ⟨⟨hvalue, trivial⟩, hnamed⟩
  | print value => exact ⟨⟨expr_scoped hnamed value hclosed, trivial⟩, hnamed⟩
  | call callee args type =>
    exact ⟨⟨expr_scoped hnamed (.call callee args type) hclosed, trivial⟩, hnamed⟩

theorem stmts_scoped (ss : List Typed.Stmt) {function : Option Signature} {binders : List Binder}
    {env : Env} (htyped : Typed.Stmt.WellTypedAll classes function ss)
    (hclosed : Typed.Stmt.ClosedAll binders ss)
    (hown : ∀ b ∈ Typed.Stmt.boundInAll ss, b.builtin = false) (hnamed : Named spell binders env) :
    Stmt.ScopedAll env (namedStmts spell ss) ∧
      Named spell (Typed.Stmt.extend binders ss) (env.after (namedStmts spell ss)) := by
  cases ss with
  | nil => exact ⟨trivial, hnamed⟩
  | cons s rest =>
    obtain ⟨hfirst, hrest⟩ := List.forall_mem_append.mp hown
    obtain ⟨hscoped, hafter⟩ := stmt_scoped s htyped.1 hclosed.1 hfirst hnamed
    obtain ⟨hscopedRest, hafterRest⟩ := stmts_scoped rest htyped.2 hclosed.2 hrest hafter
    rw [namedStmts, Env.after_append]
    exact ⟨Stmt.scopedAll_append hscoped hscopedRest, hafterRest⟩

theorem methodBodies_scoped (bodies : List Typed.MethodBody) {binders : List Binder} {env : Env}
    (htyped : Typed.MethodBody.WellTypedAll classes bodies)
    (hclosed : Typed.MethodBody.ClosedAll binders bodies)
    (hown : ∀ b ∈ Typed.MethodBody.boundInAll bodies, b.builtin = false)
    (hnamed : Named spell binders env) : Method.ScopedAll env (namedMethods spell bodies) := by
  cases bodies with
  | nil => trivial
  | cons m rest =>
    obtain ⟨m, params, body⟩ := m
    obtain ⟨⟨k, sig, rfl, -, hparams, hbody⟩, hrest⟩ := htyped
    obtain ⟨hfirst, hothers⟩ := List.forall_mem_append.mp hown
    obtain ⟨hvars, hbound⟩ := List.forall_mem_append.mp hfirst
    obtain ⟨hnames, hvarsNamed⟩ := params_named (params_there hparams) hvars
    obtain ⟨hscoped, -⟩ := stmts_scoped body hbody hclosed.1 hbound (hnamed.append hvarsNamed)
    exact ⟨⟨⟨_, rfl⟩, hnames, hscoped⟩, methodBodies_scoped rest hrest hclosed.2 hothers hnamed⟩

end

end Statements

/-- A closed program that obeys the static rules is generated with every name declared before its
use. -/
theorem generate_scoped {program : Typed.Program} (htyped : program.WellTyped)
    (hclosed : program.Closed) : (generate program).Scoped := by
  rw [generate, (stmts_follows program).spelled]
  exact (stmts_scoped program htyped hclosed.references hclosed.own (.nil _ .empty)).1

end PeakLang.Js

namespace PeakLang.Analysis

/-- A program that is let through is closed: each of its references leads to something built in or to a
binder in scope, and nothing is bound twice. It stays closed when it is simplified. So each name in the
program that is generated from it, simplified or not, is built in or declared before its use. -/
theorem analyze_closed (t : Tree.Program) (program : Typed.Program) (h : analyze t = .ok program) :
    (program.Closed ∧ program.simplify.Closed) ∧
      (Js.generate program).Scoped ∧ (Js.generate program.simplify).Scoped := by
  obtain ⟨state, hchecked⟩ := analyze_checked h
  have hrules := hchecked.wellTyped
  have hclosed := program_closed h
  have hsimplified := hclosed.simplify hrules
  exact ⟨⟨hclosed, hsimplified⟩, Js.generate_scoped hrules hclosed,
    Js.generate_scoped (hrules.simplify hclosed) hsimplified⟩

/-- A parameter that hides a variable, a body that simplifying moves into the function around it, and a
loop whose variable is passed on. -/
private def brewing : Tree.Program :=
  let p := Pos.start
  [.declare "n" false (.int "3" p) p,
    .function (.mk "twice" [⟨"n", .named "pump" p, p⟩] (some (.named "pump" p))
      [.branch (.mk (.bool true p)
        [.declare "m" true (.name "n" p) p,
          .ret (some (.binary .add (.name "m" p) (.name "m" p) p)) p] p .nothing p)] p p),
    .forEach "i" p (.array [.int "1" p, .int "2" p] p)
      [.print (.binary .add (.call (.name "twice" p) [.name "i" p] p) (.name "n" p) p) p] p p]

theorem analyze_closed_brewing :
    ∃ program, analyze brewing = .ok program ∧
      (program.Closed ∧ program.simplify.Closed) ∧
      (Js.generate program).Scoped ∧ (Js.generate program.simplify).Scoped :=
  ⟨_, rfl, analyze_closed brewing _ rfl⟩

end PeakLang.Analysis
