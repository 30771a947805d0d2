import PeakLang.Analysis.State
import PeakLang.Number.Nearest
import PeakLang.Number.Word
import PeakLang.Typed

namespace PeakLang.Analysis

open Typed (Expr)

/-- Requires a truth value. -/
def requireBoolean (e : Expr) (pos : Pos) : Except SemanticError Unit :=
  require (e.type.isPrim .boolean) .booleanExpected pos

def requireInteger (e : Expr) (pos : Pos) : Except SemanticError Unit :=
  require (e.type.isPrim .pump) .integerExpected pos

def requireNumber (e : Expr) (pos : Pos) : Except SemanticError Unit :=
  require e.type.isNumeric .numberExpected pos

def requireNumberOrString (e : Expr) (pos : Pos) : Except SemanticError Unit :=
  require (e.type.isNumeric || e.type.isPrim .roast) .numberOrStringExpected pos

/-- Requires two expressions of one type. -/
def requireSameType (a b : Expr) (pos : Pos) : Except SemanticError Unit :=
  require (a.type.equivalent b.type) .operandsDiffer pos

/-- Requires an expression that may be stored where a type is expected. -/
def requireAssignable (e : Expr) (target : Ty) (pos : Pos) : Except SemanticError Unit :=
  require (e.type.assignable target) (.notAssignable e.type target) pos

/-- Requires an array, and gives the type of its elements. -/
def requireArray (e : Expr) (pos : Pos) : Except SemanticError Ty :=
  match e.type with
  | .array base => .ok base
  | _ => .error ⟨.arrayExpected, pos⟩

/-- What a name stands for as a value. -/
def nameValue (s : State) (name : Text) (pos : Pos) : Except SemanticError Expr :=
  match s.scopes.find? name with
  | none => .error ⟨.undeclared name, pos⟩
  | some (.var v) => .ok (.var (some v))
  | some (.function f) => .ok (.function (some f))
  | some (.type _ t) => .error ⟨.typeAsValue t, pos⟩

/-- What a name stands for when it is called: a class makes an instance. -/
def nameCallee (s : State) (name : Text) (pos : Pos) : Except SemanticError Expr :=
  match s.scopes.find? name with
  | some (.type _ (.cls ref)) =>
    .ok (.cls (some ref) (((s.class? ref).map fun c => c.constructor.type).getD .untyped))
  | some (.type _ _) => .error ⟨.notCallable, pos⟩
  | _ => nameValue s name pos

/-- The name that an expression is, with its position. -/
def asName? : Tree.Expr → Option (Text × Pos)
  | .name n pos => some (n, pos)
  | _ => none

/-- A call, from what was found for the callee and a way to analyze the arguments. The callee must be
a function that takes as many arguments as are passed. -/
def callOf (callee : Except SemanticError Expr) (calleePos : Pos) (passed : Nat) (pos : Pos)
    (arguments : List Ty → Except SemanticError (List Expr)) :
    Except SemanticError (Expr × List Expr × Ty) := do
  let callee ← callee
  match callee.type with
  | .function params result =>
    require (passed == params.length) (.argumentCount params.length passed) pos
    return (callee, ← arguments params, result)
  | _ => .error ⟨.notCallable, calleePos⟩

/-- A constant, from the number that its digits stand for if that is in range. -/
def constantOf {α : Type} (value : Option α) (constant : α → Expr) (fault : Fault) (pos : Pos) :
    Except SemanticError Expr :=
  match value with
  | some value => .ok (constant value)
  | none => .error ⟨fault, pos⟩

def unaryOf (op : UnaryOp) (operand : Expr) (pos : Pos) : Except SemanticError Expr :=
  match op with
  | .not => do
    requireBoolean operand pos
    return .unary op.token operand .boolean
  | .neg => do
    requireNumber operand pos
    return .unary op.token operand operand.type

/-- An operation with two operands. -/
def binaryOf (op : BinaryOp) (left right : Expr) (leftPos rightPos pos : Pos) :
    Except SemanticError Expr :=
  match op with
  | .or | .and => do
    requireBoolean left leftPos
    requireBoolean right rightPos
    return .binary op.token left right .boolean
  | .eq | .neq => do
    requireSameType left right pos
    return .binary op.token left right .boolean
  | .lt | .leq | .gt | .geq => do
    requireNumberOrString left leftPos
    requireSameType left right pos
    return .binary op.token left right .boolean
  | .add => do
    requireNumberOrString left leftPos
    requireSameType left right pos
    return .binary op.token left right left.type
  | .sub | .mul | .div | .rem | .pow => do
    requireNumber left leftPos
    requireSameType left right pos
    return .binary op.token left right left.type

/-- A member of an object, a field before a method. -/
def memberOf (s : State) (object : Expr) (objectPos : Pos) (name : Text) (pos : Pos) :
    Except SemanticError Expr :=
  match object.type with
  | .cls ref =>
    match (s.class? ref).bind fun c => c.field? name with
    | some f => .ok (.member object (some f) none f.type)
    | none =>
      match (s.class? ref).bind fun c => c.method? name with
      | some m => .ok (.member object none (some m) m.type)
      | none => .error ⟨.noSuchMember, pos⟩
  | t => .error ⟨.objectExpected t, objectPos⟩

mutual

/-- What an expression means. Its parts are analyzed from left to right, and the first fault is
reported. -/
def expression (s : State) : Tree.Expr → Except SemanticError Expr
  | .int digits pos => constantOf (Word.ofDigits? digits) .int (.integerRange digits) pos
  | .float digits pos => constantOf (Binary64.parse? digits) .float (.numberRange digits) pos
  | .string value _ => .ok (.string value)
  | .bool value _ => .ok (.bool value)
  | .name n pos => nameValue s n pos
  | .shot pos =>
    match s.scopes.cls with
    | some c => .ok (.self (some c))
    | none => .error ⟨.shotOutsideMethod, pos⟩
  | .unary op operand _ => do unaryOf op (← expression s operand) operand.pos
  | .binary op left right pos => do
    binaryOf op (← expression s left) (← expression s right) left.pos right.pos pos
  | .conditional test consequent alternate pos => do
    let test' ← expression s test
    requireBoolean test' test.pos
    let consequent ← expression s consequent
    let alternate ← expression s alternate
    requireSameType consequent alternate pos
    return .conditional test' consequent alternate consequent.type
  | .call callee args pos => do
    let found := match asName? callee with
      | some (n, p) => nameCallee s n p
      | none => expression s callee
    let (callee, args, type) ← callOf found callee.pos args.length pos (arguments s args)
    return .call callee args type
  | .index object index _ => do
    let object' ← expression s object
    let base ← requireArray object' object.pos
    let index' ← expression s index
    requireInteger index' index.pos
    return .index object' index' base
  | .member object name pos => do memberOf s (← expression s object) object.pos name pos
  | .array [] pos => .error ⟨.untypedEmptyArray, pos⟩
  | .array (first :: rest) _ => do
    let first ← expression s first
    return .array (first :: (← elements s first.type rest)) (.array first.type)
  | .emptyArray type pos => do
    match ← resolve s.scopes type with
    | .array base => return .emptyArray (.array base)
    | _ => .error ⟨.arrayTypeExpected, pos⟩

/-- Arguments for parameters of given types. -/
def arguments (s : State) : List Tree.Expr → List Ty → Except SemanticError (List Expr)
  | arg :: args, type :: types => do
    let arg' ← expression s arg
    requireAssignable arg' type arg.pos
    return arg' :: (← arguments s args types)
  | _, _ => return []

/-- The elements of an array after the first, which has a given type. -/
def elements (s : State) (type : Ty) : List Tree.Expr → Except SemanticError (List Expr)
  | [] => return []
  | e :: rest => do
    let e' ← expression s e
    require (e'.type.equivalent type) .elementsDiffer e.pos
    return e' :: (← elements s type rest)

end

def call (s : State) (callee : Tree.Expr) (args : List Tree.Expr) (pos : Pos) :
    Except SemanticError (Expr × List Expr × Ty) :=
  let found := match asName? callee with
    | some (n, p) => nameCallee s n p
    | none => expression s callee
  callOf found callee.pos args.length pos (arguments s args)

/-- What may be assigned to: variables that are not read-only, functions that are not built in,
elements of arrays, and fields. -/
def target (s : State) (e : Tree.Expr) : Except SemanticError Expr := do
  let t ← expression s e
  match t with
  | .var (some v) => require (!v.readOnly) (.constantTarget v.name) e.pos
  | .function (some f) => require (!f.builtin) (.constantTarget f.name) e.pos
  | .index _ _ _ => return t
  | .member _ _ (some m) _ => .error ⟨.methodTarget m.name, e.pos⟩
  | .member _ _ none _ => return t
  | _ => .error ⟨.badTarget, e.pos⟩
  return t

end PeakLang.Analysis
