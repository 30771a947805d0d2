import Mathlib.Data.List.Forall2
import PeakLang.Typed

namespace PeakLang

namespace Ty

mutual

/-- Whether a type is known in all of its parts. -/
def known : Ty → Bool
  | untyped => false
  | prim _ | cls _ => true
  | array base | optional base => base.known
  | function params result => knownAll params && result.known

def knownAll : List Ty → Bool
  | [] => true
  | t :: rest => t.known && knownAll rest

end

/-- The types whose values are ordered, and may be added. -/
def isOrdered (t : Ty) : Bool := t.isNumeric || t.isPrim .roast

theorem isPrim_iff {p : Prim} {t : Ty} : t.isPrim p = true ↔ t = .prim p := by
  cases t with
  | prim q =>
    rw [isPrim, beq_iff_eq, prim.injEq]
    exact eq_comm
  | _ => simp [isPrim]

theorem isTyped_of_known {t : Ty} (h : t.known = true) : t.isTyped = true := by
  cases t <;> simp_all [known, isTyped]

theorem knownAll_iff {ts : List Ty} : knownAll ts = true ↔ ∀ t ∈ ts, t.known = true := by
  induction ts with
  | nil => simp [knownAll]
  | cons t rest ih => simp [knownAll, ih]

end Ty

namespace Signature

/-- Whether the types of a signature are known. -/
def known (s : Signature) : Bool := s.type.known

theorem known_iff {s : Signature} :
    s.known = true ↔ (∀ t ∈ s.params, t.known = true) ∧ s.result.known = true := by
  simp [known, type, Ty.known, Ty.knownAll_iff]

end Signature

namespace Class

/-- Whether all members of a class are there and have known types. -/
def Known (c : Class) : Prop :=
  (∀ f ∈ c.fields, f.type.known = true) ∧
    ∀ m ∈ c.methods, ∃ n s, m = some n ∧ n.signature = some s ∧ s.known = true

theorem Known.isWhole {c : Class} (h : c.Known) : c.isWhole = true := by
  refine List.all_eq_true.mpr fun m hm => ?_
  obtain ⟨n, -, rfl, -⟩ := h.2 m hm
  rfl

theorem Known.constructor {c : Class} (h : c.Known) : c.constructor.known = true := by
  rw [Signature.known_iff]
  refine ⟨?_, rfl⟩
  intro t ht
  obtain ⟨f, hf, rfl⟩ := List.mem_map.mp ht
  exact h.1 f hf

theorem ofMembers_known {ref : ClassRef} {fields : List (Text × Ty)}
    {methods : List (Text × Option Signature)} (hfields : ∀ f ∈ fields, f.2.known = true)
    (hmethods : ∀ m ∈ methods, ∃ s, m.2 = some s ∧ s.known = true) :
    (ofMembers ref fields methods).Known := by
  constructor
  · intro f hf
    obtain ⟨i, hi, rfl⟩ := List.mem_mapIdx.mp hf
    exact hfields _ (List.getElem_mem hi)
  · intro m hm
    obtain ⟨i, hi, rfl⟩ := List.mem_mapIdx.mp hm
    obtain ⟨s, hs, hknown⟩ := hmethods _ (List.getElem_mem hi)
    exact ⟨_, s, rfl, hs, hknown⟩

theorem ofMembers_signatures {ref : ClassRef} {fields : List (Text × Ty)}
    {methods : List (Text × Option Signature)} :
    (ofMembers ref fields methods).methods.map (fun m => m.bind Method.signature) =
      methods.map Prod.snd := by
  apply List.ext_getElem <;> simp [ofMembers]

end Class

namespace Typed

/-- What an operator with one operand takes, and the type of its result. -/
inductive UnaryRule : TokenKind → (operand result : Ty) → Prop
  | not : UnaryRule .kwNot .boolean .boolean
  | neg {t : Ty} (hnumber : t.isNumeric = true) : UnaryRule .minus t t

/-- What an operator with two operands takes, and the type of its result. -/
inductive BinaryRule : TokenKind → (left right result : Ty) → Prop
  | logical {op : TokenKind} (hop : op = .kwAnd ∨ op = .kwOr) :
      BinaryRule op .boolean .boolean .boolean
  | equality {op : TokenKind} {t u : Ty} (hop : op = .eq ∨ op = .neq)
      (hsame : t.equivalent u = true) : BinaryRule op t u .boolean
  | order {op : TokenKind} {t u : Ty} (hop : op = .lt ∨ op = .leq ∨ op = .gt ∨ op = .geq)
      (hordered : t.isOrdered = true) (hsame : t.equivalent u = true) : BinaryRule op t u .boolean
  | sum {t u : Ty} (hordered : t.isOrdered = true) (hsame : t.equivalent u = true) :
      BinaryRule .plus t u t
  | arithmetic {op : TokenKind} {t u : Ty}
      (hop : op = .minus ∨ op = .star ∨ op = .slash ∨ op = .percent ∨ op = .power)
      (hnumber : t.isNumeric = true) (hsame : t.equivalent u = true) : BinaryRule op t u t

theorem UnaryRule.result_eq {op : TokenKind} {t r : Ty} (h : UnaryRule op t r) :
    r = .boolean ∨ r = t := by
  cases h with
  | not => exact .inl rfl
  | neg => exact .inr rfl

theorem BinaryRule.result_eq {op : TokenKind} {t u r : Ty} (h : BinaryRule op t u r) :
    r = .boolean ∨ r = t := by
  cases h with
  | logical | equality | order => exact .inl rfl
  | sum | arithmetic => exact .inr rfl

/-- A callee of a function type takes as many arguments as are passed, each of which may be stored as
its parameter. The call has the type that the function returns. -/
def CallRule (callee : Ty) (args : List Ty) (result : Ty) : Prop :=
  ∃ params, callee = .function params result ∧
    List.Forall₂ (fun arg param => Ty.assignable arg param = true) args params

/-- A member of an object is a field or a method that the object's class declares, and has its
type. -/
inductive MemberRule (classes : List Class) :
    Ty → Option Field → Option Method → (result : Ty) → Prop
  | field {c : Class} {f : Field} (hclass : c ∈ classes) (hfield : f ∈ c.fields) :
      MemberRule classes (.cls c.ref) (some f) none f.type
  | method {c : Class} {m : Method} (hclass : c ∈ classes) (hmethod : some m ∈ c.methods) :
      MemberRule classes (.cls c.ref) none (some m) m.type

namespace Expr

mutual

/-- Whether every node of an expression obeys the rules, where `classes` are declared. -/
def WellTyped (classes : List Class) : Expr → Prop
  | missing => False
  | int _ | float _ | string _ | bool _ => True
  | var v => ∃ w, v = some w ∧ w.type.known = true
  | function f => ∃ g s, f = some g ∧ g.signature = some s ∧ s.known = true
  | cls c type => ∃ k ∈ classes, c = some k.ref ∧ type = k.constructor.type
  | self c => c.isSome = true
  | unary op operand type => operand.WellTyped classes ∧ UnaryRule op operand.type type
  | binary op left right type =>
    left.WellTyped classes ∧ right.WellTyped classes ∧ BinaryRule op left.type right.type type
  | conditional test consequent alternate type =>
    test.WellTyped classes ∧ consequent.WellTyped classes ∧ alternate.WellTyped classes ∧
      test.type = .boolean ∧ consequent.type.equivalent alternate.type = true ∧
      type = consequent.type
  | call callee args type =>
    callee.WellTyped classes ∧ WellTypedAll classes args ∧
      CallRule callee.type (args.map Expr.type) type
  | index object i type =>
    object.WellTyped classes ∧ i.WellTyped classes ∧ object.type = .array type ∧ i.type = .pump
  | member object field method type =>
    object.WellTyped classes ∧ MemberRule classes object.type field method type
  | array elements type =>
    elements ≠ [] ∧ WellTypedAll classes elements ∧
      ∃ base, type = .array base ∧ ∀ e ∈ elements, e.type.equivalent base = true
  | emptyArray type => ∃ base, type = .array base ∧ base.known = true

def WellTypedAll (classes : List Class) : List Expr → Prop
  | [] => True
  | e :: rest => e.WellTyped classes ∧ WellTypedAll classes rest

end

/-- The type of an expression that obeys the rules is known. -/
theorem WellTyped.type_known {classes : List Class} (hclasses : ∀ c ∈ classes, c.Known) (e : Expr)
    (h : e.WellTyped classes) : e.type.known = true := by
  cases e with
  | missing => cases h
  | int | float | string | bool => rfl
  | var v =>
    obtain ⟨w, rfl, hknown⟩ := h
    exact hknown
  | function f =>
    obtain ⟨g, s, rfl, hs, hknown⟩ := h
    simpa [Expr.type, Function.type, hs, Signature.known] using hknown
  | cls c type =>
    obtain ⟨k, hk, -, rfl⟩ := h
    exact (hclasses k hk).constructor
  | self c =>
    obtain ⟨c, rfl⟩ := Option.isSome_iff_exists.mp h
    rfl
  | unary op operand type =>
    rcases h.2.result_eq with rfl | rfl
    · rfl
    · exact WellTyped.type_known hclasses operand h.1
  | binary op left right type =>
    rcases h.2.2.result_eq with rfl | rfl
    · rfl
    · exact WellTyped.type_known hclasses left h.1
  | conditional test consequent alternate type =>
    obtain ⟨-, hconsequent, -, -, -, rfl⟩ := h
    exact WellTyped.type_known hclasses consequent hconsequent
  | call callee args type =>
    obtain ⟨hcallee, -, params, htype, -⟩ := h
    have hknown := WellTyped.type_known hclasses callee hcallee
    rw [htype, Ty.known, Bool.and_eq_true] at hknown
    exact hknown.2
  | index object i type =>
    obtain ⟨hobject, -, htype, -⟩ := h
    have hknown := WellTyped.type_known hclasses object hobject
    rwa [htype, Ty.known] at hknown
  | member object field method type =>
    obtain ⟨-, hrule⟩ := h
    generalize object.type = t at hrule
    cases hrule with
    | field hclass hfield => exact (hclasses _ hclass).1 _ hfield
    | method hclass hmethod =>
      obtain ⟨_, s, ⟨⟩, hs, hknown⟩ := (hclasses _ hclass).2 _ hmethod
      simpa [Expr.type, Method.type, hs, Signature.known] using hknown
  | array elements type =>
    obtain ⟨hne, hall, base, rfl, hbase⟩ := h
    cases elements with
    | nil => cases hne rfl
    | cons e rest =>
      have hknown := WellTyped.type_known hclasses e hall.1
      rw [Ty.equivalent_iff_eq.mp (hbase e List.mem_cons_self)] at hknown
      exact hknown
  | emptyArray type =>
    obtain ⟨base, rfl, hknown⟩ := h
    exact hknown

/-- What may be assigned to: a variable that is not read-only, a function that is not built in, an
element of an array, or a field. -/
def IsPlace : Expr → Prop
  | var (some v) => v.readOnly = false
  | function (some f) => f.builtin = false
  | index _ _ _ => True
  | member _ (some _) none _ => True
  | _ => False

end Expr

/-- The parameters of a function are there, with the types that its signature gives them. -/
def ParamRule (params : List (Option Variable)) (s : Signature) : Prop :=
  params.map (Option.map Variable.type) = s.params.map some

/-- What a return gives back: nothing from a function without a result, and from any other function a
value that may be stored as its result. -/
def ReturnRule (classes : List Class) (function : Option Signature) (value : Expr) : Prop :=
  ∃ s, function = some s ∧
    ((s.result = .none ∧ value = .missing) ∨
      (s.result ≠ .none ∧ value.WellTyped classes ∧ value.type.assignable s.result = true))

def MethodBody.method : MethodBody → Option Method
  | .mk m _ _ => m

mutual

/-- Whether every node of a statement obeys the rules, where `classes` are declared and `function` is
the function around the statement. -/
def Stmt.WellTyped (classes : List Class) (function : Option Signature) : Stmt → Prop
  | .missing | .missingCall => False
  | .declare v init =>
    init.WellTyped classes ∧ ∃ w, v = some w ∧ w.type = init.type
  | .function f params body =>
    ∃ g s, f = some g ∧ g.signature = some s ∧ s.known = true ∧ ParamRule params s ∧
      Stmt.WellTypedAll classes (some s) body
  | .cls c methods =>
    ∃ k ∈ classes, c = some k ∧ k.Known ∧
      methods.map MethodBody.method = k.methods ∧
      MethodBody.WellTypedAll classes methods
  | .assign target source =>
    target.WellTyped classes ∧ source.WellTyped classes ∧ target.IsPlace ∧
      source.type.assignable target.type = true
  | .bump _ target => target.WellTyped classes ∧ target.IsPlace ∧ target.type = .pump
  | .branch test consequent alternate =>
    test.WellTyped classes ∧ test.type = .boolean ∧ Stmt.WellTypedAll classes function consequent ∧
      Stmt.WellTypedAll classes function alternate
  | .shortBranch test consequent =>
    test.WellTyped classes ∧ test.type = .boolean ∧ Stmt.WellTypedAll classes function consequent
  | .loop test body =>
    test.WellTyped classes ∧ test.type = .boolean ∧ Stmt.WellTypedAll classes function body
  | .forEach v collection body =>
    collection.WellTyped classes ∧ (∃ w, v = some w ∧ collection.type = .array w.type) ∧
      Stmt.WellTypedAll classes function body
  | .leave => True
  | .ret value => ReturnRule classes function value
  | .print value => value.WellTyped classes
  | .call callee args type => (Expr.call callee args type).WellTyped classes

def MethodBody.WellTyped (classes : List Class) : MethodBody → Prop
  | .mk m params body =>
    ∃ n s, m = some n ∧ n.signature = some s ∧ ParamRule params s ∧
      Stmt.WellTypedAll classes (some s) body

def Stmt.WellTypedAll (classes : List Class) (function : Option Signature) : List Stmt → Prop
  | [] => True
  | s :: rest => s.WellTyped classes function ∧ Stmt.WellTypedAll classes function rest

def MethodBody.WellTypedAll (classes : List Class) : List MethodBody → Prop
  | [] => True
  | m :: rest => m.WellTyped classes ∧ MethodBody.WellTypedAll classes rest

end

mutual

/-- The classes that a statement declares, at any depth. -/
def Stmt.classes : Stmt → List Class
  | .cls c methods => c.toList ++ MethodBody.classesOfAll methods
  | .function _ _ body | .shortBranch _ body | .loop _ body | .forEach _ _ body =>
    Stmt.classesOfAll body
  | .branch _ consequent alternate =>
    Stmt.classesOfAll consequent ++ Stmt.classesOfAll alternate
  | _ => []

def MethodBody.classes : MethodBody → List Class
  | .mk _ _ body => Stmt.classesOfAll body

def Stmt.classesOfAll : List Stmt → List Class
  | [] => []
  | s :: rest => s.classes ++ Stmt.classesOfAll rest

def MethodBody.classesOfAll : List MethodBody → List Class
  | [] => []
  | m :: rest => m.classes ++ MethodBody.classesOfAll rest

end

/-- Whether every node of a program obeys the rules. A program lies in no function. -/
def Program.WellTyped (program : Program) : Prop :=
  Stmt.WellTypedAll (Stmt.classesOfAll program) none program

end Typed

end PeakLang
