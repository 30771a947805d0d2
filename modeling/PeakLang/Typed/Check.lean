import PeakLang.Typed

namespace PeakLang.Typed

/-- What can be wrong with a node. -/
inductive Problem where
  | untypedVariable
  | untypedFunction
  | noClass
  | untypedField (cls field : Text)
  | methodCount (cls : Text) (declared bodies : Nat)
  | untypedMethod (cls : Text)
  | paramCount (given expected : Nat)
  | untypedParam (place : Nat)
  | untypedIterator
  | noCall
  | unknownStatement
  | noExpression
  | untyped (node : Text)
  | ambiguousMember
  | noElements
  | untypedVarRef
  | untypedFunctionRef
  | untypedClassRef
  | selfWithoutClass
deriving DecidableEq

namespace Problem

def text : Problem → Text
  | untypedVariable => "VarDecl has untyped variable"
  | untypedFunction => "FuncDecl has untyped function"
  | noClass => "ClassDecl has nil Class"
  | untypedField cls field => "class " ++ cls ++ " field " ++ field ++ " has nil Type"
  | methodCount cls declared bodies =>
    "class " ++ cls ++ " declares " ++ Text.ofNat declared ++ " methods but has " ++
      Text.ofNat bodies ++ " bodies"
  | untypedMethod cls => "class " ++ cls ++ " has an untyped method"
  | paramCount given expected =>
    Text.ofNat given ++ " parameters but signature has " ++ Text.ofNat expected
  | untypedParam place => "parameter " ++ Text.ofNat place ++ " is untyped"
  | untypedIterator => "ForStmt has untyped iterator"
  | noCall => "CallStmt has nil Call"
  | unknownStatement => "unknown statement type <nil>"
  | noExpression => "nil expression"
  | untyped node => node ++ " has nil Type"
  | ambiguousMember => "MemberExpr must select exactly one field or method"
  | noElements => "ArrayLit has no elements"
  | untypedVarRef => "VarRef has untyped variable"
  | untypedFunctionRef => "FuncRef has untyped function"
  | untypedClassRef => "ClassRef has nil Class or Type"
  | selfWithoutClass => "SelfExpr has nil Class"

end Problem

/-- An issue: a problem at a place, or no program at all. -/
inductive Issue where
  | noProgram
  | found (place : Text) (problem : Problem)
deriving DecidableEq

namespace Issue

def text : Issue → Text
  | noProgram => "nil program"
  | found place problem => place ++ ": " ++ problem.text

/-- An issue if a condition holds. -/
def when (condition : Bool) (place : Text) (problem : Problem) : List Issue :=
  if condition then [.found place problem] else []

end Issue

/-- Whether a variable is there and has a type. -/
def isTypedVariable (v : Option Variable) : Bool := v.any fun v => v.type.isTyped

/-- A place inside another, by a label and a number. -/
def numbered (place label : Text) (n : Nat) : Text :=
  place ++ " (" ++ label ++ " " ++ Text.ofNat n ++ ")"

namespace Expr

mutual

def issues (place : Text) : Expr → List Issue
  | missing => [.found place .noExpression]
  | int _ | float _ | string _ | bool _ => []
  | var v => Issue.when (!isTypedVariable v) place .untypedVarRef
  | function f => Issue.when (!f.any fun f => f.signature.isSome) place .untypedFunctionRef
  | cls c type => Issue.when (c.isNone || !type.isTyped) place .untypedClassRef
  | self c => Issue.when c.isNone place .selfWithoutClass
  | unary _ operand type =>
    Issue.when (!type.isTyped) place (.untyped "UnaryExpr") ++ operand.issues place
  | binary _ left right type =>
    Issue.when (!type.isTyped) place (.untyped "BinaryExpr") ++ left.issues place ++
      right.issues place
  | conditional test consequent alternate type =>
    Issue.when (!type.isTyped) place (.untyped "Conditional") ++ test.issues place ++
      consequent.issues place ++ alternate.issues place
  | call callee args type =>
    Issue.when (!type.isTyped) place (.untyped "CallExpr") ++ callee.issues place ++
      issuesOfAll place "arg" 0 args
  | index object i type =>
    Issue.when (!type.isTyped) place (.untyped "SubscriptExpr") ++ object.issues place ++
      i.issues place
  | member object field method type =>
    Issue.when (!type.isTyped) place (.untyped "MemberExpr") ++
      Issue.when (field.isSome == method.isSome) place .ambiguousMember ++ object.issues place
  | array elements type =>
    Issue.when (!type.isTyped) place (.untyped "ArrayLit") ++
      Issue.when elements.isEmpty place .noElements ++ issuesOfAll place "element" 0 elements
  | emptyArray type => Issue.when (!type.isTyped) place (.untyped "EmptyArray")

def issuesOfAll (place label : Text) (n : Nat) : List Expr → List Issue
  | [] => []
  | e :: rest => e.issues (numbered place label n) ++ issuesOfAll place label (n + 1) rest

end

end Expr

/-- The issues of parameters that a signature describes. -/
def paramIssues (place : Text) (params : List (Option Variable)) (s : Signature) : List Issue :=
  if params.length == s.params.length then
    (params.zipIdx.flatMap fun (p, i) => Issue.when (!isTypedVariable p) place (.untypedParam i))
  else [.found place (.paramCount params.length s.params.length)]

/-- The issues of a class itself, which comes with a number of method bodies. -/
def classIssues (place : Text) (c : Class) (bodies : Nat) : List Issue :=
  (c.fields.flatMap fun f =>
    Issue.when (!f.type.isTyped) place (.untypedField c.ref.name f.name)) ++
    Issue.when (bodies != c.methods.length) place
      (.methodCount c.ref.name c.methods.length bodies)

mutual

def Stmt.issues (place : Text) : Stmt → List Issue
  | .missing => [.found place .unknownStatement]
  | .declare var init =>
    Issue.when (!isTypedVariable var) place .untypedVariable ++ init.issues place
  | .function fn params body =>
    match fn with
    | some ⟨_, name, some s, _⟩ =>
      paramIssues (place ++ " function " ++ name) params s ++
        Stmt.issuesOfAll ("function " ++ name) 0 body
    | _ => [.found place .untypedFunction]
  | .cls cls methods =>
    match cls with
    | some c => classIssues place c methods.length ++ MethodBody.issuesOfAll place c.ref.name methods
    | none => [.found place .noClass]
  | .assign target source => target.issues place ++ source.issues place
  | .bump _ target => target.issues place
  | .branch test consequent alternate =>
    test.issues place ++ Stmt.issuesOfAll (place ++ " (then)") 0 consequent ++
      Stmt.issuesOfAll (place ++ " (else)") 0 alternate
  | .shortBranch test consequent =>
    test.issues place ++ Stmt.issuesOfAll (place ++ " (then)") 0 consequent
  | .loop test body => test.issues place ++ Stmt.issuesOfAll (place ++ " (while body)") 0 body
  | .forEach iterator collection body =>
    Issue.when (!isTypedVariable iterator) place .untypedIterator ++ collection.issues place ++
      Stmt.issuesOfAll (place ++ " (for body)") 0 body
  | .leave => []
  | .ret .missing => []
  | .ret value => value.issues place
  | .print value => value.issues place
  | .call callee args type => (Expr.call callee args type).issues place
  | .missingCall => [.found place .noCall]

def MethodBody.issues (place cls : Text) : MethodBody → List Issue
  | .mk method params body =>
    match method with
    | some ⟨_, _, name, some s⟩ =>
      let place := "class " ++ cls ++ " method " ++ name
      paramIssues place params s ++ Stmt.issuesOfAll place 0 body
    | _ => [.found place (.untypedMethod cls)]

def Stmt.issuesOfAll (place : Text) (n : Nat) : List Stmt → List Issue
  | [] => []
  | s :: rest =>
    s.issues (place ++ " statement " ++ Text.ofNat n) ++ Stmt.issuesOfAll place (n + 1) rest

def MethodBody.issuesOfAll (place cls : Text) : List MethodBody → List Issue
  | [] => []
  | m :: rest => m.issues place cls ++ MethodBody.issuesOfAll place cls rest

end

def Program.issues (program : Program) : List Issue := Stmt.issuesOfAll "program" 0 program

/-- The issues of a program that may not be there. -/
def issues : Option Program → List Issue
  | some program => program.issues
  | none => [.noProgram]

end PeakLang.Typed
