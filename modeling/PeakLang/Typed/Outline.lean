import PeakLang.Listing
import PeakLang.Number.Shortest
import PeakLang.Number.Word
import PeakLang.Text.Quoted
import PeakLang.Tree.Outline
import PeakLang.Typed

namespace PeakLang.Typed

def typedLabel (label : Text) (type : Text) : Text := label ++ " <" ++ type ++ ">"

/-- The type of a declared name. -/
def declaredType : Ty → Text
  | .untyped => "%!s(<nil>)"
  | t => t.describe

/-- The type of a function or method that is declared. -/
def declaredSignature (s : Option Signature) : Text :=
  (s.map fun s => s.type.describe).getD "<nil>"

/-- A line for a declared name with its type, or a gap. -/
def declaredLine (depth : Nat) (label : Text) (v : Option Variable) : Line :=
  match v with
  | some v => .entry depth (typedLabel (label ++ v.name) (declaredType v.type))
  | none => .missing depth label

/-- A line for an expression with its type, or a gap if its type must be known and is not. -/
def knownLine (depth : Nat) (label : Text) (type : Ty) : Line :=
  if type.isTyped then .entry depth (typedLabel label type.describe) else .missing depth label

namespace Expr

/-- The name of the member that an expression selects, a field before a method. -/
def memberName (field : Option Field) (method : Option Method) : Text :=
  match field, method with
  | some f, _ => f.name
  | none, some m => m.name
  | none, none => []

mutual

def outline (depth : Nat) : Expr → Listing
  | missing => [.missing depth "<nil>"]
  | int value => [.entry depth ("Int: " ++ Word.text value)]
  | float value => [.entry depth ("Float: " ++ value.text)]
  | string value => [.entry depth ("String: " ++ Quoted.quoted value)]
  | bool value => [.entry depth ("Bool: " ++ Text.ofBool value)]
  | var none => [.missing depth "Var: "]
  | var (some v) => [.entry depth (typedLabel ("Var: " ++ v.name) v.type.describe)]
  | function none => [.missing depth "Func: "]
  | function (some f) => [knownLine depth ("Func: " ++ f.name) f.type]
  | cls none _ => [.missing depth "Class: "]
  | cls (some c) type => [knownLine depth ("Class: " ++ c.name) type]
  | self none => [.missing depth "Shot"]
  | self (some c) => [.entry depth (typedLabel "Shot" c.name)]
  | unary op operand type =>
    .entry depth (typedLabel ("UnaryExpr: " ++ op.symbol) type.describe) ::
      operand.outline (depth + 1)
  | binary op left right type =>
    .entry depth (typedLabel ("BinaryExpr: " ++ op.symbol) type.describe) ::
      (left.outline (depth + 1) ++ right.outline (depth + 1))
  | conditional test consequent alternate type =>
    .entry depth (typedLabel "Conditional" type.describe) ::
      (test.outline (depth + 1) ++ consequent.outline (depth + 1) ++ alternate.outline (depth + 1))
  | call callee args type =>
    .entry depth (typedLabel "Call" type.describe) ::
      (callee.outline (depth + 1) ++ outlineAll (depth + 1) args)
  | index object i type =>
    .entry depth (typedLabel "Subscript" type.describe) ::
      (object.outline (depth + 1) ++ i.outline (depth + 1))
  | member object field method type =>
    .entry depth (typedLabel ("Member: " ++ memberName field method) type.describe) ::
      object.outline (depth + 1)
  | array elements type => knownLine depth "ArrayLit" type :: outlineAll (depth + 1) elements
  | emptyArray type => [knownLine depth "EmptyArray" type]

def outlineAll (depth : Nat) : List Expr → Listing
  | [] => []
  | e :: rest => e.outline depth ++ outlineAll depth rest

end

end Expr

/-- The lines of parameters. -/
def paramsOutline (depth : Nat) (params : List (Option Variable)) : Listing :=
  params.map (declaredLine depth "Param: ")

/-- The lines of a class itself, without its methods. -/
def classOutline (depth : Nat) : Option Class → Listing
  | none => [.missing depth "Class: "]
  | some c =>
    .entry depth ("Class: " ++ c.ref.name) :: c.fields.map fun f =>
      .entry (depth + 1) (typedLabel ("Field: " ++ f.name) (declaredType f.type))

mutual

def Stmt.outline (depth : Nat) : Stmt → Listing
  | .missing => [.missing depth "Unknown statement: <nil>"]
  | .declare var init =>
    let word := Tree.declarationWord ((var.map Variable.readOnly).getD false)
    declaredLine depth ("VarDecl: " ++ word ++ " ") var :: init.outline (depth + 1)
  | .function fn params body =>
    (match fn with
      | some f => .entry depth (typedLabel ("Function: " ++ f.name) (declaredSignature f.signature))
      | none => .missing depth "Function: ") ::
      (paramsOutline (depth + 1) params ++ Stmt.outlineAll (depth + 1) body)
  | .cls cls methods => classOutline depth cls ++ MethodBody.outlineAll (depth + 1) methods
  | .assign target source =>
    .entry depth "Assignment" :: (target.outline (depth + 1) ++ source.outline (depth + 1))
  | .bump op target =>
    .entry depth (match op with | .increment => "Increment" | .decrement => "Decrement") ::
      target.outline (depth + 1)
  | .branch test consequent alternate =>
    .entry depth "IfStmt" :: (test.outline (depth + 1) ++ .entry (depth + 1) "Then:" ::
      (Stmt.outlineAll (depth + 2) consequent ++ .entry (depth + 1) "Else:" ::
        Stmt.outlineAll (depth + 2) alternate))
  | .shortBranch test consequent =>
    .entry depth "ShortIfStmt" :: (test.outline (depth + 1) ++ .entry (depth + 1) "Then:" ::
      Stmt.outlineAll (depth + 2) consequent)
  | .loop test body =>
    .entry depth "WhileStmt" :: (test.outline (depth + 1) ++ Stmt.outlineAll (depth + 1) body)
  | .forEach iterator collection body =>
    declaredLine depth "ForStmt: " iterator ::
      (collection.outline (depth + 1) ++ Stmt.outlineAll (depth + 1) body)
  | .leave => [.entry depth "BreakStmt"]
  | .ret .missing => [.entry depth "ReturnStmt"]
  | .ret value => .entry depth "ReturnStmt" :: value.outline (depth + 1)
  | .print value => .entry depth "PrintStmt" :: value.outline (depth + 1)
  | .call callee args type =>
    .entry depth "CallStmt" :: (Expr.call callee args type).outline (depth + 1)
  | .missingCall => [.entry depth "CallStmt", .missing (depth + 1) "Call"]

def MethodBody.outline (depth : Nat) : MethodBody → Listing
  | .mk method params body =>
    (match method with
      | some m => .entry depth (typedLabel ("Method: " ++ m.name) (declaredSignature m.signature))
      | none => .missing depth "Method: ") ::
      (paramsOutline (depth + 1) params ++ Stmt.outlineAll (depth + 1) body)

def Stmt.outlineAll (depth : Nat) : List Stmt → Listing
  | [] => []
  | s :: rest => s.outline depth ++ Stmt.outlineAll depth rest

def MethodBody.outlineAll (depth : Nat) : List MethodBody → Listing
  | [] => []
  | m :: rest => m.outline depth ++ MethodBody.outlineAll depth rest

end

def Program.outline (program : Program) : Listing :=
  .entry 0 "Program" :: Stmt.outlineAll 1 program

end PeakLang.Typed
