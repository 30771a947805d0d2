import PeakLang.Proofs.Analysis.Run
import PeakLang.Proofs.Typed.Rules

namespace PeakLang.Analysis

open Typed (Expr Stmt MethodBody UnaryRule BinaryRule)

section Expressions

mutual

/-- What is found for an expression. A name that is called may also be the one of a class. -/
inductive Finds (s : State) : Tree.Expr → Expr → Prop
  | int {digits pos value} (hvalue : Word.ofDigits? digits = some value) :
      Finds s (.int digits pos) (.int value)
  | float {digits pos value} (hvalue : Binary64.parse? digits = some value) :
      Finds s (.float digits pos) (.float value)
  | string {value pos} : Finds s (.string value pos) (.string value)
  | bool {value pos} : Finds s (.bool value pos) (.bool value)
  | var {n pos v} (hfind : s.scopes.find? n = some (.var v)) : Finds s (.name n pos) (.var (some v))
  | function {n pos f} (hfind : s.scopes.find? n = some (.function f)) :
      Finds s (.name n pos) (.function (some f))
  | shot {pos ref} (hcls : s.scopes.cls = some ref) : Finds s (.shot pos) (.self (some ref))
  | unary {op operand pos o type} (ho : Finds s operand o) (hrule : UnaryRule op.token o.type type) :
      Finds s (.unary op operand pos) (.unary op.token o type)
  | binary {op left right pos l r type} (hl : Finds s left l) (hr : Finds s right r)
      (hrule : BinaryRule op.token l.type r.type type) :
      Finds s (.binary op left right pos) (.binary op.token l r type)
  | conditional {test consequent alternate pos t c a} (ht : Finds s test t)
      (hbool : t.type = .boolean) (hc : Finds s consequent c) (ha : Finds s alternate a)
      (hsame : c.type.equivalent a.type = true) :
      Finds s (.conditional test consequent alternate pos) (.conditional t c a c.type)
  | call {callee args pos f as params type} (hf : Finds s callee f)
      (htype : f.type = .function params type) (has : FindsAll s args as)
      (hfit : List.Forall₂ (fun arg param => Ty.assignable arg param = true) (as.map Expr.type) params) :
      Finds s (.call callee args pos) (.call f as type)
  | new {n namePos args pos name c as} (hfind : s.scopes.find? n = some (.type name (.cls c.ref)))
      (hclass : s.class? c.ref = some c) (has : FindsAll s args as)
      (hfit : List.Forall₂ (fun arg param => Ty.assignable arg param = true) (as.map Expr.type)
        c.constructor.params) :
      Finds s (.call (.name n namePos) args pos)
        (.call (.cls (some c.ref) c.constructor.type) as (.cls c.ref))
  | index {object index pos o i base} (ho : Finds s object o) (hbase : o.type = .array base)
      (hi : Finds s index i) (hint : i.type = .pump) : Finds s (.index object index pos) (.index o i base)
  | field {object name pos o c f} (ho : Finds s object o) (htype : o.type = .cls c.ref)
      (hclass : s.class? c.ref = some c) (hfield : c.field? name = some f) :
      Finds s (.member object name pos) (.member o (some f) none f.type)
  | method {object name pos o c m} (ho : Finds s object o) (htype : o.type = .cls c.ref)
      (hclass : s.class? c.ref = some c) (hmethod : c.method? name = some m) :
      Finds s (.member object name pos) (.member o none (some m) m.type)
  | array {first rest pos f fs} (hf : Finds s first f) (hfs : FindsAll s rest fs)
      (hsame : ∀ e ∈ fs, e.type.equivalent f.type = true) :
      Finds s (.array (first :: rest) pos) (.array (f :: fs) (.array f.type))
  | emptyArray {type pos base} (htype : resolve s.scopes type = .ok (.array base)) :
      Finds s (.emptyArray type pos) (.emptyArray (.array base))

inductive FindsAll (s : State) : List Tree.Expr → List Expr → Prop
  | nil : FindsAll s [] []
  | cons {t ts e es} (he : Finds s t e) (hes : FindsAll s ts es) : FindsAll s (t :: ts) (e :: es)

end

variable {s : State} {e : Expr} {pos : Pos}

theorem class?_eq_some {ref : ClassRef} {c : Class} (h : s.class? ref = some c) :
    c ∈ s.classes ∧ c.ref = ref :=
  ⟨List.mem_of_find?_eq_some h, by simpa using List.find?_some h⟩

theorem constantOf_eq_ok {α : Type} {value : Option α} {constant : α → Expr} {fault : Fault}
    (h : constantOf value constant fault pos = .ok e) : ∃ a, value = some a ∧ constant a = e := by
  cases value with
  | none => cases h
  | some a =>
    cases h
    exact ⟨a, rfl, rfl⟩

theorem nameValue_finds {n : Text} (h : nameValue s n pos = .ok e) : Finds s (.name n pos) e := by
  unfold nameValue at h
  split at h <;> cases h
  · exact .var ‹_›
  · exact .function ‹_›

theorem unaryOf_eq_ok {op : UnaryOp} {operand : Expr} (h : unaryOf op operand pos = .ok e) :
    ∃ type, e = .unary op.token operand type ∧ UnaryRule op.token operand.type type := by
  cases op with
  | not =>
    simp only [unaryOf, requireBoolean, bind_eq_ok_iff, require_eq_ok_iff, pure_eq_ok_iff,
      Ty.isPrim_iff] at h
    obtain ⟨-, hbool, rfl⟩ := h
    rw [hbool]
    exact ⟨_, rfl, .not⟩
  | neg =>
    simp only [unaryOf, requireNumber, bind_eq_ok_iff, require_eq_ok_iff, pure_eq_ok_iff] at h
    obtain ⟨-, hnumber, rfl⟩ := h
    exact ⟨_, rfl, .neg hnumber⟩

theorem binaryOf_eq_ok {op : BinaryOp} {left right : Expr} {leftPos rightPos : Pos}
    (h : binaryOf op left right leftPos rightPos pos = .ok e) :
    ∃ type, e = .binary op.token left right type ∧
      BinaryRule op.token left.type right.type type := by
  cases op with
  | or | and =>
    simp only [binaryOf, requireBoolean, bind_eq_ok_iff, require_eq_ok_iff, pure_eq_ok_iff,
      Ty.isPrim_iff] at h
    obtain ⟨-, hl, -, hr, rfl⟩ := h
    rw [hl, hr]
    exact ⟨_, rfl, .logical (by simp [BinaryOp.token])⟩
  | eq | neq =>
    simp only [binaryOf, requireSameType, bind_eq_ok_iff, require_eq_ok_iff, pure_eq_ok_iff] at h
    obtain ⟨-, hsame, rfl⟩ := h
    exact ⟨_, rfl, .equality (by simp [BinaryOp.token]) hsame⟩
  | lt | leq | gt | geq =>
    simp only [binaryOf, requireNumberOrString, requireSameType, bind_eq_ok_iff, require_eq_ok_iff,
      pure_eq_ok_iff] at h
    obtain ⟨-, hordered, -, hsame, rfl⟩ := h
    exact ⟨_, rfl, .order (by simp [BinaryOp.token]) hordered hsame⟩
  | add =>
    simp only [binaryOf, requireNumberOrString, requireSameType, bind_eq_ok_iff, require_eq_ok_iff,
      pure_eq_ok_iff] at h
    obtain ⟨-, hordered, -, hsame, rfl⟩ := h
    exact ⟨_, rfl, .sum hordered hsame⟩
  | sub | mul | div | rem | pow =>
    simp only [binaryOf, requireNumber, requireSameType, bind_eq_ok_iff, require_eq_ok_iff,
      pure_eq_ok_iff] at h
    obtain ⟨-, hnumber, -, hsame, rfl⟩ := h
    exact ⟨_, rfl, .arithmetic (by simp [BinaryOp.token]) hnumber hsame⟩

theorem memberOf_finds {t : Tree.Expr} {object : Expr} {objectPos : Pos} {name : Text}
    (hobject : Finds s t object) (h : memberOf s object objectPos name pos = .ok e) :
    Finds s (.member t name pos) e := by
  unfold memberOf at h
  split at h
  · rename_i ref htype
    split at h
    · rename_i f hfield
      cases h
      obtain ⟨c, hc, hf⟩ := Option.bind_eq_some_iff.mp hfield
      obtain ⟨-, rfl⟩ := class?_eq_some hc
      exact .field hobject htype hc hf
    · split at h <;> cases h
      rename_i m hmethod
      obtain ⟨c, hc, hm⟩ := Option.bind_eq_some_iff.mp hmethod
      obtain ⟨-, rfl⟩ := class?_eq_some hc
      exact .method hobject htype hc hm
  · cases h

/-- What is called is a function that takes as many arguments as are passed. -/
theorem callOf_eq_ok {callee : Except SemanticError Expr} {calleePos : Pos} {passed : Nat}
    {arguments : List Ty → Except SemanticError (List Expr)} {args : List Expr} {type : Ty}
    (h : callOf callee calleePos passed pos arguments = .ok (e, args, type)) :
    callee = .ok e ∧ ∃ params, e.type = .function params type ∧ passed = params.length ∧
      arguments params = .ok args := by
  simp only [callOf, bind_eq_ok_iff] at h
  obtain ⟨callee', hcallee, h⟩ := h
  split at h
  · rename_i params result htype
    simp only [bind_eq_ok_iff, require_eq_ok_iff, pure_eq_ok_iff, Prod.mk.injEq] at h
    obtain ⟨-, hlength, args', hargs, rfl, rfl, rfl⟩ := h
    exact ⟨hcallee, params, htype, by simpa using hlength, hargs⟩
  · cases h

theorem nameCall_finds {n : Text} {namePos : Pos} {args : List Tree.Expr} {as : List Expr}
    {params : List Ty} {type : Ty} (h : nameCallee s n namePos = .ok e)
    (htype : e.type = .function params type) (has : FindsAll s args as)
    (hfit : List.Forall₂ (fun arg param => Ty.assignable arg param = true) (as.map Expr.type) params) :
    Finds s (.call (.name n namePos) args pos) (.call e as type) := by
  unfold nameCallee at h
  split at h
  · rename_i name ref hfind
    cases h
    -- A class without known members has no constructor to call.
    cases hclass : s.class? ref with
    | none =>
      rw [hclass] at htype
      cases htype
    | some c =>
      obtain ⟨-, rfl⟩ := class?_eq_some hclass
      rw [hclass] at htype
      cases htype
      exact .new hfind hclass has hfit
  · cases h
  · exact .call (nameValue_finds h) htype has hfit

mutual

theorem expression_finds (t : Tree.Expr) {e : Expr} (h : expression s t = .ok e) : Finds s t e := by
  cases t with
  | int digits pos =>
    obtain ⟨value, hvalue, rfl⟩ := constantOf_eq_ok h
    exact .int hvalue
  | float digits pos =>
    obtain ⟨value, hvalue, rfl⟩ := constantOf_eq_ok h
    exact .float hvalue
  | string value pos =>
    cases h
    exact .string
  | bool value pos =>
    cases h
    exact .bool
  | name n pos => exact nameValue_finds h
  | shot pos =>
    rw [expression] at h
    split at h <;> cases h
    exact .shot ‹_›
  | unary op operand pos =>
    simp only [expression, bind_eq_ok_iff] at h
    obtain ⟨o, ho, h⟩ := h
    obtain ⟨type, rfl, hrule⟩ := unaryOf_eq_ok h
    exact .unary (expression_finds operand ho) hrule
  | binary op left right pos =>
    simp only [expression, bind_eq_ok_iff] at h
    obtain ⟨l, hl, r, hr, h⟩ := h
    obtain ⟨type, rfl, hrule⟩ := binaryOf_eq_ok h
    exact .binary (expression_finds left hl) (expression_finds right hr) hrule
  | conditional test consequent alternate pos =>
    simp only [expression, requireBoolean, requireSameType, bind_eq_ok_iff, require_eq_ok_iff,
      pure_eq_ok_iff, Ty.isPrim_iff] at h
    obtain ⟨t, ht, -, hbool, c, hc, a, ha, -, hsame, rfl⟩ := h
    exact .conditional (expression_finds test ht) hbool (expression_finds consequent hc)
      (expression_finds alternate ha) hsame
  | call callee args pos =>
    simp only [expression, bind_eq_ok_iff, pure_eq_ok_iff] at h
    obtain ⟨⟨f, as, type⟩, h, rfl⟩ := h
    obtain ⟨hfound, params, htype, hlength, hargs⟩ := callOf_eq_ok h
    obtain ⟨has, hfit⟩ := arguments_finds args hlength hargs
    split at hfound
    · rename_i n p hname
      cases callee <;> cases hname
      exact nameCall_finds hfound htype has hfit
    · exact .call (expression_finds callee hfound) htype has hfit
  | index object index pos =>
    simp only [expression, requireInteger, bind_eq_ok_iff, require_eq_ok_iff, pure_eq_ok_iff,
      requireArray_eq_ok_iff, Ty.isPrim_iff] at h
    obtain ⟨o, ho, base, hbase, i, hi, -, hint, rfl⟩ := h
    exact .index (expression_finds object ho) hbase (expression_finds index hi) hint
  | member object name pos =>
    simp only [expression, bind_eq_ok_iff] at h
    obtain ⟨o, ho, h⟩ := h
    exact memberOf_finds (expression_finds object ho) h
  | array es pos =>
    cases es with
    | nil => cases h
    | cons first rest =>
      simp only [expression, bind_eq_ok_iff, pure_eq_ok_iff] at h
      obtain ⟨f, hf, es, hes, rfl⟩ := h
      obtain ⟨hes, hsame⟩ := elements_finds rest hes
      exact .array (expression_finds first hf) hes hsame
  | emptyArray type pos =>
    simp only [expression, bind_eq_ok_iff] at h
    obtain ⟨t, ht, h⟩ := h
    split at h <;> cases h
    exact .emptyArray ht

theorem arguments_finds (args : List Tree.Expr) {params : List Ty} {es : List Expr}
    (hlength : args.length = params.length) (h : arguments s args params = .ok es) :
    FindsAll s args es ∧
      List.Forall₂ (fun arg param => Ty.assignable arg param = true) (es.map Expr.type) params := by
  cases args with
  | nil =>
    cases h
    cases List.length_eq_zero_iff.mp hlength.symm
    exact ⟨.nil, .nil⟩
  | cons arg args =>
    obtain ⟨type, types, rfl⟩ := List.exists_cons_of_length_eq_add_one hlength.symm
    simp only [arguments, requireAssignable, bind_eq_ok_iff, require_eq_ok_iff, pure_eq_ok_iff] at h
    obtain ⟨a, ha, -, hfits, as, has, rfl⟩ := h
    obtain ⟨has, hfit⟩ := arguments_finds args (Nat.succ.inj hlength) has
    exact ⟨.cons (expression_finds arg ha) has, .cons hfits hfit⟩

theorem elements_finds (ts : List Tree.Expr) {type : Ty} {es : List Expr}
    (h : elements s type ts = .ok es) :
    FindsAll s ts es ∧ ∀ e ∈ es, e.type.equivalent type = true := by
  cases ts with
  | nil =>
    cases h
    exact ⟨.nil, List.forall_mem_nil _⟩
  | cons t rest =>
    simp only [elements, bind_eq_ok_iff, require_eq_ok_iff, pure_eq_ok_iff] at h
    obtain ⟨e, he, -, hsame, es, hes, rfl⟩ := h
    obtain ⟨hes, hrest⟩ := elements_finds rest hes
    exact ⟨.cons (expression_finds t he) hes, List.forall_mem_cons.mpr ⟨hsame, hrest⟩⟩

end

/-- What may be assigned to is a place. -/
theorem target_finds {t : Tree.Expr} (h : target s t = .ok e) : Finds s t e ∧ e.IsPlace := by
  simp only [target, bind_eq_ok_iff] at h
  obtain ⟨e', he, h⟩ := h
  have hfinds := expression_finds t he
  split at h
  · simp only [bind_eq_ok_iff, require_eq_ok_iff, pure_eq_ok_iff] at h
    obtain ⟨-, hfree, rfl⟩ := h
    exact ⟨hfinds, by simpa [Expr.IsPlace] using hfree⟩
  · simp only [bind_eq_ok_iff, require_eq_ok_iff, pure_eq_ok_iff] at h
    obtain ⟨-, hfree, rfl⟩ := h
    exact ⟨hfinds, by simpa [Expr.IsPlace] using hfree⟩
  · cases h
    exact ⟨hfinds, trivial⟩
  · cases h
  · cases h
    cases hfinds with
    | field ho htype hclass hfield => exact ⟨.field ho htype hclass hfield, trivial⟩
  · cases h

theorem test_finds {t : Tree.Expr} (h : test t s = .ok e) : Finds s t e ∧ e.type = .boolean := by
  simp only [test, requireBoolean, bind_eq_ok_iff, require_eq_ok_iff, pure_eq_ok_iff,
    Ty.isPrim_iff] at h
  obtain ⟨e, he, -, hbool, rfl⟩ := h
  exact ⟨expression_finds t he, hbool⟩

end Expressions

section Declarations

variable {s s' : State}

theorem yields_declareVariable {name : Text} {type : Ty} {readOnly : Bool} {pos : Pos} {v : Variable}
    (h : Yields (declareVariable name type readOnly pos) s v s') :
    v = ⟨s.nextId, name, type, readOnly, false⟩ ∧
      s' = ⟨s.scopes.bind name (.var v), s.classes, s.nextId + 1⟩ := by
  simp only [declareVariable, yields_bind, yields_fresh, yields_declare, yields_pure] at h
  obtain ⟨id, _, ⟨rfl, rfl⟩, _, _, ⟨-, rfl⟩, rfl, rfl⟩ := h
  exact ⟨rfl, rfl⟩

/-- A function is declared with its signature; that its name stood for less before does not show. -/
theorem yields_declareFunction {name : Text} {params : List Tree.Param} {result : Option TypeExpr}
    {pos : Pos} {f : Function} {sig : Signature}
    (h : Yields (declareFunction name params result pos) s (f, sig) s') :
    f = ⟨s.nextId, name, some sig, false⟩ ∧
      s' = ⟨s.scopes.bind name (.function f), s.classes, s.nextId + 1⟩ ∧
      ∃ unknown, signature (s.scopes.bind name (.function unknown)) params result = .ok sig := by
  simp only [declareFunction, yields_bind, yields_fresh, yields_declare, yields_reading,
    yields_redeclare, yields_pure, Prod.mk.injEq] at h
  obtain ⟨_, _, ⟨rfl, rfl⟩, _, _, ⟨-, rfl⟩, _, _, ⟨hsig, rfl⟩, _, _, rfl, ⟨rfl, rfl⟩, rfl⟩ := h
  refine ⟨rfl, ?_, _, hsig⟩
  simp only [Scopes.bind_bind]

/-- A class is declared with its members, which may refer to it. -/
theorem yields_declareClass {name : Text} {fields : List Tree.Field} {methods : List Tree.Func}
    {pos : Pos} {c : Class} {signatures : List Signature}
    (h : Yields (declareClass name fields methods pos) s (c, signatures) s') :
    ∃ fs ms, fieldsOf (s.scopes.bind name (.type name (.cls ⟨s.nextId, name⟩))) [] fields = .ok fs ∧
      methodsOf (s.scopes.bind name (.type name (.cls ⟨s.nextId, name⟩)))
        (fields.map Tree.Field.name) methods = .ok ms ∧
      c = Class.ofMembers ⟨s.nextId, name⟩ fs (ms.map fun (n, sig) => (n, some sig)) ∧
      signatures = ms.map Prod.snd ∧
      s' = ⟨s.scopes.bind name (.type name (.cls ⟨s.nextId, name⟩)), s.classes ++ [c], s.nextId + 1⟩ := by
  simp only [declareClass, yields_bind, yields_fresh, yields_declare, yields_reading,
    yields_register, yields_pure, Prod.mk.injEq] at h
  obtain ⟨_, _, ⟨rfl, rfl⟩, _, _, ⟨-, rfl⟩, fs, _, ⟨hfields, rfl⟩, ms, _, ⟨hmethods, rfl⟩, _, _, rfl,
    ⟨rfl, rfl⟩, rfl⟩ := h
  exact ⟨fs, ms, hfields, hmethods, rfl, rfl, rfl⟩

theorem declareClass_length {name : Text} {fields : List Tree.Field} {methods : List Tree.Func}
    {pos : Pos} {c : Class} {signatures : List Signature}
    (h : Yields (declareClass name fields methods pos) s (c, signatures) s') :
    c.methods.length = methods.length ∧ signatures.length = methods.length := by
  obtain ⟨fs, ms, -, hmethods, rfl, rfl, -⟩ := yields_declareClass h
  have hlength := ((givesTypes_true _).methodsOf hmethods).2.2.length_eq
  simp only [Class.ofMembers, List.length_mapIdx, List.length_map, hlength, and_self]

end Declarations

section Statements

mutual

/-- How a statement is let through: what is found for its parts, what it declares, and what it
becomes. -/
inductive Passes : State → Tree.Stmt → Stmt → State → Prop
  | declare {s name readOnly value pos init v s'} (hinit : Finds s value init)
      (hv : Yields (declareVariable name init.type readOnly pos) s v s') :
      Passes s (.declare name readOnly value pos) (.declare (some v) init) s'
  | function {s name params result body bodyPos pos f sig t vs r s'}
      (hf : Yields (declareFunction name params result pos) s (f, sig) t)
      (hbody : PassesBody t params sig (.ofFunction (some sig)) body vs r s') :
      Passes s (.function (.mk name params result body bodyPos pos)) (.function (some f) vs r) s'
  | cls {s name fields methods pos c sigs t r s'}
      (hc : Yields (declareClass name fields methods pos) s (c, sigs) t)
      (hbodies : PassesMethods c.ref t methods c.methods sigs r s') :
      Passes s (.cls name fields methods pos) (.cls (some c) r) s'
  | assign {s place value pos e source} (htarget : Finds s place e) (hplace : e.IsPlace)
      (hsource : Finds s value source) (hfits : source.type.assignable e.type = true) :
      Passes s (.assign place value pos) (.assign e source) s
  | bump {s op place pos e} (htarget : Finds s place e) (hplace : e.IsPlace) (hint : e.type = .pump) :
      Passes s (.bump op place pos) (.bump op e) s
  | branch {s e body bodyPos o pos x consequent t alternate s'} (htest : Finds s e x)
      (hbool : x.type = .boolean) (hbody : PassesAll (s.enter .nothing) body consequent t)
      (hother : PassesOther t.leave o (some alternate) s') :
      Passes s (.branch (.mk e body bodyPos o pos)) (.branch x consequent alternate) s'
  | shortBranch {s e body bodyPos o pos x consequent t s'} (htest : Finds s e x)
      (hbool : x.type = .boolean) (hbody : PassesAll (s.enter .nothing) body consequent t)
      (hother : PassesOther t.leave o none s') :
      Passes s (.branch (.mk e body bodyPos o pos)) (.shortBranch x consequent) s'
  | loop {s e body bodyPos pos x r t} (htest : Finds s e x) (hbool : x.type = .boolean)
      (hbody : PassesAll (s.enter .ofLoop) body r t) :
      Passes s (.loop e body bodyPos pos) (.loop x r) t.leave
  | forEach {s name namePos e body bodyPos pos x base v t r t'} (he : Finds s e x)
      (hbase : x.type = .array base)
      (hv : Yields (declareVariable name base true pos) (s.enter .ofLoop) v t)
      (hbody : PassesAll t body r t') :
      Passes s (.forEach name namePos e body bodyPos pos) (.forEach (some v) x r) t'.leave
  | leave {s pos} (hloop : s.scopes.inLoop = true) : Passes s (.leave pos) .leave s
  | retNothing {s pos sig} (hsig : s.scopes.function = some sig) (hresult : sig.result = .none) :
      Passes s (.ret none pos) (.ret .missing) s
  | ret {s value pos sig x} (hsig : s.scopes.function = some sig) (hresult : sig.result ≠ .none)
      (hvalue : Finds s value x) (hfits : x.type.assignable sig.result = true) :
      Passes s (.ret (some value) pos) (.ret x) s
  | print {s value pos x} (hvalue : Finds s value x) : Passes s (.print value pos) (.print x) s
  | call {s callee args callPos pos f as type}
      (hcall : Finds s (.call callee args callPos) (.call f as type)) :
      Passes s (.call callee args callPos pos) (.call f as type) s

inductive PassesOther : State → Tree.Otherwise → Option (List Stmt) → State → Prop
  | nothing {s} : PassesOther s .nothing none s
  | block {s body pos r t} (hbody : PassesAll (s.enter .nothing) body r t) :
      PassesOther s (.block body pos) (some r) t.leave
  | chain {s next r s'} (hnext : Passes s (.branch next) r s') :
      PassesOther s (.chain next) (some [r]) s'

inductive PassesAll : State → List Tree.Stmt → List Stmt → State → Prop
  | nil {s} : PassesAll s [] [] s
  | cons {s t ts r rs s₁ s'} (hr : Passes s t r s₁) (hrs : PassesAll s₁ ts rs s') :
      PassesAll s (t :: ts) (r :: rs) s'

/-- The parameters and the body of a function, in a scope of their own. -/
inductive PassesBody : State → List Tree.Param → Signature → Scope.Overrides → List Tree.Stmt →
    List (Option Variable) → List Stmt → State → Prop
  | mk {s params sig o body vs t r t'}
      (hparams : Yields (declareParams params sig.params) (s.enter o) vs t)
      (hbody : PassesAll t body r t') :
      PassesBody s params sig o body (vs.map some) r t'.leave

inductive PassesMethods : ClassRef → State → List Tree.Func → List (Option Method) →
    List Signature → List MethodBody → State → Prop
  | nil {ref s} : PassesMethods ref s [] [] [] [] s
  | cons {ref s name params result body bodyPos pos funcs m methods sig sigs vs r s₁ rs s'}
      (hbody : PassesBody s params sig (.ofMethod (some ref) (some sig)) body vs r s₁)
      (hrest : PassesMethods ref s₁ funcs methods sigs rs s') :
      PassesMethods ref s (.mk name params result body bodyPos pos :: funcs) (m :: methods)
        (sig :: sigs) (.mk m vs r :: rs) s'

end

variable {s s' : State}

theorem returned_passes {value : Option Tree.Expr} {pos : Pos} {r : Stmt}
    (h : returned value pos s = .ok r) : Passes s (.ret value pos) r s := by
  unfold returned at h
  split at h
  · cases h
  · rename_i sig hsig
    split at h
    · rename_i hnone
      cases value <;> cases h
      exact .retNothing hsig (Ty.isPrim_iff.mp hnone)
    · rename_i hnone
      cases value with
      | none => cases h
      | some t =>
        simp only [requireAssignable, bind_eq_ok_iff, require_eq_ok_iff, pure_eq_ok_iff] at h
        obtain ⟨e, he, -, hfits, rfl⟩ := h
        exact .ret hsig (fun hresult => hnone (Ty.isPrim_iff.mpr hresult)) (expression_finds t he) hfits

theorem functionBody_passes {params : List Tree.Param} {sig : Signature} {o : Scope.Overrides}
    {body : List Tree.Stmt} {vs : List (Option Variable)} {r : List Stmt}
    (hstatements : ∀ {t t' r}, Yields (statements body) t r t' → PassesAll t body r t')
    (h : Yields (functionBody params sig o (statements body)) s (vs, r) s') :
    PassesBody s params sig o body vs r s' := by
  obtain ⟨ws, t, t', hparams, hr, rfl, rfl⟩ := yields_functionBody h
  exact .mk hparams (hstatements hr)

mutual

theorem statement_passes (t : Tree.Stmt) {s s' : State} {r : Stmt}
    (h : Yields (statement t) s r s') : Passes s t r s' := by
  cases t with
  | declare name readOnly value pos =>
    simp only [statement, yields_bind, yields_reading, yields_pure] at h
    obtain ⟨init, _, ⟨hinit, rfl⟩, v, _, hv, rfl, rfl⟩ := h
    exact .declare (expression_finds value hinit) hv
  | function decl =>
    obtain ⟨name, params, result, body, bodyPos, pos⟩ := decl
    simp only [statement, yields_bind, yields_pure] at h
    obtain ⟨⟨f, sig⟩, t, hf, ⟨vs, r⟩, _, hbody, rfl, rfl⟩ := h
    exact .function hf (functionBody_passes (fun hr => statements_passes body hr) hbody)
  | cls name fields methods pos =>
    simp only [statement, yields_bind, yields_pure] at h
    obtain ⟨⟨c, sigs⟩, t, hc, bodies, _, hbodies, rfl, rfl⟩ := h
    obtain ⟨hmethods, hsigs⟩ := declareClass_length hc
    exact .cls hc (methodBodies_passes methods hmethods hsigs hbodies)
  | assign place value pos =>
    obtain ⟨hread, rfl⟩ := yields_reading.mp h
    simp only [requireAssignable, bind_eq_ok_iff, require_eq_ok_iff, pure_eq_ok_iff] at hread
    obtain ⟨target, htarget, source, hsource, -, hfits, rfl⟩ := hread
    obtain ⟨htarget, hplace⟩ := target_finds htarget
    exact .assign htarget hplace (expression_finds value hsource) hfits
  | bump op place pos =>
    obtain ⟨hread, rfl⟩ := yields_reading.mp h
    simp only [requireInteger, bind_eq_ok_iff, require_eq_ok_iff, pure_eq_ok_iff, Ty.isPrim_iff] at hread
    obtain ⟨target, htarget, -, hint, rfl⟩ := hread
    obtain ⟨htarget, hplace⟩ := target_finds htarget
    exact .bump htarget hplace hint
  | branch decision => exact branch_passes decision h
  | loop e body bodyPos pos =>
    simp only [statement, yields_bind, yields_reading, yields_within, yields_pure] at h
    obtain ⟨test, _, ⟨htest, rfl⟩, r, _, ⟨t, hbody, rfl⟩, rfl, rfl⟩ := h
    obtain ⟨htest, hbool⟩ := test_finds htest
    exact .loop htest hbool (statements_passes body hbody)
  | forEach name namePos e body bodyPos pos =>
    simp only [statement, yields_bind, yields_reading, yields_within, bind_eq_ok_iff, pure_eq_ok_iff,
      yields_pure, requireArray_eq_ok_iff] at h
    obtain ⟨_, _, ⟨⟨c, hc, base, hbase, rfl⟩, rfl⟩, _, ⟨v, t, hv, r, _, hbody, rfl, rfl⟩, rfl⟩ := h
    exact .forEach (expression_finds e hc) hbase hv (statements_passes body hbody)
  | leave pos =>
    obtain ⟨hread, rfl⟩ := yields_reading.mp h
    simp only [bind_eq_ok_iff, pure_eq_ok_iff, require_eq_ok_iff] at hread
    obtain ⟨-, hloop, rfl⟩ := hread
    exact .leave hloop
  | ret value pos =>
    obtain ⟨hread, rfl⟩ := yields_reading.mp h
    exact returned_passes hread
  | print value pos =>
    obtain ⟨hread, rfl⟩ := yields_reading.mp h
    simp only [bind_eq_ok_iff, pure_eq_ok_iff] at hread
    obtain ⟨e, he, rfl⟩ := hread
    exact .print (expression_finds value he)
  | call callee args callPos pos =>
    obtain ⟨hread, rfl⟩ := yields_reading.mp h
    simp only [bind_eq_ok_iff, pure_eq_ok_iff] at hread
    obtain ⟨⟨f, as, type⟩, hcall, rfl⟩ := hread
    refine .call (expression_finds _ ?_)
    rw [expression]
    exact bind_eq_ok_iff.mpr ⟨_, hcall, rfl⟩

theorem branch_passes (b : Tree.Branch) {s s' : State} {r : Stmt} (h : Yields (branch b) s r s') :
    Passes s (.branch b) r s' := by
  obtain ⟨e, body, bodyPos, otherwise, pos⟩ := b
  simp only [branch, yields_bind, yields_reading, yields_within] at h
  obtain ⟨test, _, ⟨htest, rfl⟩, consequent, _, ⟨t, hbody, rfl⟩, alternate, t', hother, h⟩ := h
  obtain ⟨htest, hbool⟩ := test_finds htest
  have hbody := statements_passes body hbody
  have hother := alternate_passes otherwise hother
  cases alternate with
  | none =>
    obtain ⟨rfl, rfl⟩ := yields_pure.mp h
    exact .shortBranch htest hbool hbody hother
  | some alternate =>
    obtain ⟨rfl, rfl⟩ := yields_pure.mp h
    exact .branch htest hbool hbody hother

theorem alternate_passes (o : Tree.Otherwise) {s s' : State} {r : Option (List Stmt)}
    (h : Yields (alternate o) s r s') : PassesOther s o r s' := by
  cases o with
  | nothing =>
    obtain ⟨rfl, rfl⟩ := yields_pure.mp h
    exact .nothing
  | block body bodyPos =>
    simp only [alternate, yields_bind, yields_within, yields_pure] at h
    obtain ⟨r, _, ⟨t, hbody, rfl⟩, rfl, rfl⟩ := h
    exact .block (statements_passes body hbody)
  | chain next =>
    simp only [alternate, yields_bind, yields_pure] at h
    obtain ⟨r, _, hnext, rfl, rfl⟩ := h
    exact .chain (branch_passes next hnext)

theorem statements_passes (ts : List Tree.Stmt) {s s' : State} {r : List Stmt}
    (h : Yields (statements ts) s r s') : PassesAll s ts r s' := by
  cases ts with
  | nil =>
    obtain ⟨rfl, rfl⟩ := yields_pure.mp h
    exact .nil
  | cons t rest =>
    simp only [statements, yields_bind, yields_pure] at h
    obtain ⟨x, s₁, hx, xs, _, hxs, rfl, rfl⟩ := h
    exact .cons (statement_passes t hx) (statements_passes rest hxs)

theorem methodBodies_passes (funcs : List Tree.Func) {s s' : State} {ref : ClassRef}
    {methods : List (Option Method)} {sigs : List Signature} {r : List MethodBody}
    (hmethods : methods.length = funcs.length) (hsigs : sigs.length = funcs.length)
    (h : Yields (methodBodies ref funcs methods sigs) s r s') :
    PassesMethods ref s funcs methods sigs r s' := by
  cases funcs with
  | nil =>
    obtain ⟨rfl, rfl⟩ := yields_pure.mp h
    cases List.length_eq_zero_iff.mp hmethods
    cases List.length_eq_zero_iff.mp hsigs
    exact .nil
  | cons func funcs =>
    obtain ⟨m, methods, rfl⟩ := List.exists_cons_of_length_eq_add_one hmethods
    obtain ⟨sig, sigs, rfl⟩ := List.exists_cons_of_length_eq_add_one hsigs
    obtain ⟨name, params, result, body, bodyPos, pos⟩ := func
    simp only [methodBodies, yields_bind, yields_pure] at h
    obtain ⟨⟨vs, b⟩, s₁, hbody, bs, _, hrest, rfl, rfl⟩ := h
    exact .cons (functionBody_passes (fun hr => statements_passes body hr) hbody)
      (methodBodies_passes funcs (Nat.succ.inj hmethods) (Nat.succ.inj hsigs) hrest)

end

/-- The statements of a program that is let through. -/
theorem analyze_passes {t : Tree.Program} {program : Typed.Program} (h : analyze t = .ok program) :
    ∃ s, PassesAll .start t program s :=
  ⟨_, statements_passes t (Prod.ext h rfl)⟩

end Statements

end PeakLang.Analysis
