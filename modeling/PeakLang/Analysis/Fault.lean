import PeakLang.Pos
import PeakLang.Scope
import PeakLang.Ty

namespace PeakLang.Analysis

/-- The kinds of what can be wrong with the meaning of a program. -/
inductive FaultKind where
  | unresolvedIdentifier
  | duplicateDeclaration
  | typeMismatch
  | arityMismatch
  | invalidControlFlow
  | notCallable
  | notIndexable
  | notAType
  | noSuchMember
deriving DecidableEq

namespace FaultKind

/-- All kinds; the place of a kind in this list is its ordinal. -/
def all : List FaultKind :=
  [unresolvedIdentifier, duplicateDeclaration, typeMismatch, arityMismatch, invalidControlFlow,
   notCallable, notIndexable, notAType, noSuchMember]

def name : FaultKind → Text
  | unresolvedIdentifier => "UnresolvedIdentifier"
  | duplicateDeclaration => "DuplicateDeclaration"
  | typeMismatch => "TypeMismatch"
  | arityMismatch => "ArityMismatch"
  | invalidControlFlow => "InvalidControlFlow"
  | notCallable => "NotCallable"
  | notIndexable => "NotIndexable"
  | notAType => "NotAType"
  | noSuchMember => "NoSuchMember"

/-- The name of the kind with an ordinal, also if there is no such kind. -/
def nameOfOrdinal (n : Int) : Text :=
  match if n < 0 then none else all[n.toNat]? with
  | some kind => kind.name
  | none => "Kind(" ++ Text.ofInt n ++ ")"

end FaultKind

inductive Fault where
  | undeclared (name : Text)
  | duplicate (name : Text)
  | booleanExpected
  | integerExpected
  | numberExpected
  | numberOrStringExpected
  | operandsDiffer
  | elementsDiffer
  | notAssignable (source target : Ty)
  | constantTarget (name : Text)
  | methodTarget (name : Text)
  | badTarget
  | typeAsValue (type : Ty)
  | objectExpected (found : Ty)
  | untypedEmptyArray
  | integerRange (digits : Text)
  | numberRange (digits : Text)
  | arrayExpected
  | argumentCount (required passed : Nat)
  | breakOutsideLoop
  | returnOutsideFunction
  | valueReturned
  | nothingReturned
  | shotOutsideMethod
  | notCallable
  | typeExpected
  | arrayTypeExpected
  | noSuchMember
deriving DecidableEq

namespace Fault

def kind : Fault → FaultKind
  | undeclared _ => .unresolvedIdentifier
  | duplicate _ => .duplicateDeclaration
  | booleanExpected | integerExpected | numberExpected | numberOrStringExpected | operandsDiffer
  | elementsDiffer | notAssignable _ _ | constantTarget _ | methodTarget _ | badTarget
  | typeAsValue _ | objectExpected _ | untypedEmptyArray | integerRange _ | numberRange _ =>
    .typeMismatch
  | arrayExpected => .notIndexable
  | argumentCount _ _ => .arityMismatch
  | breakOutsideLoop | returnOutsideFunction | valueReturned | nothingReturned
  | shotOutsideMethod => .invalidControlFlow
  | notCallable => .notCallable
  | typeExpected | arrayTypeExpected => .notAType
  | noSuchMember => .noSuchMember

def message : Fault → Text
  | undeclared name => "Identifier " ++ name ++ " not declared"
  | duplicate name => Scopes.duplicateMessage name
  | booleanExpected => "Expected a boolean"
  | integerExpected => "Expected an integer"
  | numberExpected => "Expected a number"
  | numberOrStringExpected => "Expected a number or string"
  | operandsDiffer => "Operands do not have the same type"
  | elementsDiffer => "Not all elements have the same type"
  | notAssignable source target =>
    "Cannot assign a " ++ source.describe ++ " to a " ++ target.describe
  | constantTarget name => "Cannot assign to constant " ++ name
  | methodTarget name => "Cannot assign to method " ++ name
  | badTarget => "Cannot assign to this expression"
  | typeAsValue type => "Expected a value, found type " ++ type.describe
  | objectExpected found => "Expected an object, found " ++ found.describe
  | untypedEmptyArray => "Empty arrays need a type, as in [pump]()"
  | integerRange digits => "Integer " ++ digits ++ " is out of range"
  | numberRange digits => "Number " ++ digits ++ " is out of range"
  | arrayExpected => "Expected an array"
  | argumentCount required passed =>
    Text.ofNat required ++ " argument(s) required but " ++ Text.ofNat passed ++ " passed"
  | breakOutsideLoop => "Break can only appear in a loop"
  | returnOutsideFunction => "Return can only appear in a function"
  | valueReturned => "Cannot return a value"
  | nothingReturned => "Something should be returned"
  | shotOutsideMethod => "Shot can only appear in a method"
  | notCallable => "Call of non-function"
  | typeExpected => "Type expected"
  | arrayTypeExpected => "Must be an array type"
  | noSuchMember => "No such field"

end Fault

structure SemanticError where
  fault : Fault
  pos : Pos
deriving DecidableEq

namespace SemanticError

def message (e : SemanticError) : Text := e.pos.locator ++ e.fault.message

end SemanticError

/-- Reports a fault if a condition does not hold. -/
def require (condition : Bool) (fault : Fault) (pos : Pos) : Except SemanticError Unit :=
  if condition then .ok () else .error ⟨fault, pos⟩

end PeakLang.Analysis
