import PeakLang.Js.Names
import PeakLang.Js.Render
import PeakLang.Typed

namespace PeakLang.Js

def operator : TokenKind → Text
  | .plus => "+"
  | .minus => "-"
  | .star => "*"
  | .slash => "/"
  | .percent => "%"
  | .power => "**"
  | .eq => "==="
  | .neq => "!=="
  | .lt => "<"
  | .gt => ">"
  | .leq => "<="
  | .geq => ">="
  | .kwAnd => "&&"
  | .kwOr => "||"
  | _ => "?"

/-- Whether the text of an expression starts with an operator, which may not stand right before a
power. -/
def startsWithSign : Typed.Expr → Bool
  | .unary _ _ _ => true
  | .int value => value < 0
  | .float value => value.isNegative
  | _ => false

/-- An operation in parentheses. An integer quotient is cut. -/
def operation (op : TokenKind) (signed : Bool) (left right : Expr) (type : Ty) : Expr :=
  let left := if op == .power && signed then .paren left else left
  let whole : Expr := .paren (.binary (operator op) left right)
  if op == .slash && type.isPrim .pump then .call (.code "Math.trunc") [whole] else whole

/-- A member as a value: a method is bound to its object. -/
def memberValue (object name : Expr) (isField : Bool) : Expr :=
  let m : Expr := .member object name
  if isField then m else .call (.member m (.code "bind")) [object]

mutual

/-- The JavaScript of an expression. Names are asked for in the order in which the generator meets them;
the arguments of a call come before its callee. -/
def expr : Typed.Expr → Gen Expr
  | .missing => return .undefined
  | .int value => return .int value
  | .float value => return .float value
  | .string value => return .string value
  | .bool value => return .bool value
  | .var v => varName v
  | .function f => functionName f
  | .cls c _ => className c
  | .self _ => return .this
  | .unary op operand _ => do
    return .unary (if op == .kwNot then "!" else "-") (.paren (← expr operand))
  | .binary op left right type => do
    let left' ← expr left
    let right' ← expr right
    return operation op (startsWithSign left) left' right' type
  | .conditional test consequent alternate _ => do
    let test ← expr test
    let consequent ← expr consequent
    let alternate ← expr alternate
    return .paren (.conditional (.paren test) (.paren consequent) (.paren alternate))
  | .call (.cls c _) args _ => do
    let args ← exprs args
    return .new (← className c) args
  | .call (.member object _ (some m) _) args _ => do
    let args ← exprs args
    let object ← expr object
    return .call (.member object (← methodName (some m))) args
  | .call callee args _ => do
    let args ← exprs args
    return .call (← expr callee) args
  | .index object index _ => do
    let object ← expr object
    return .index object (← expr index)
  | .member object (some f) _ _ => do
    let object ← expr object
    return memberValue object (← fieldName f) true
  | .member object none m _ => do
    let object ← expr object
    return memberValue object (← methodName m) false
  | .array elements _ => return .array (← exprs elements)
  | .emptyArray _ => return .array []

/-- The JavaScript of expressions in a row. -/
def exprs : List Typed.Expr → Gen (List Expr)
  | [] => return []
  | e :: rest => do
    let e ← expr e
    return e :: (← exprs rest)

end

/-- What follows a branch's body. A single branch continues the chain. -/
def otherwiseOf (count : Nat) (body : List Stmt) : Otherwise :=
  match count, body with
  | 1, [.branch b] => .chain b
  | _, body => .block body

/-- A class, unless a method that it lists is missing. -/
def classOf (c : Class) (name : Expr) (fields : List Expr) (methods : List Method) : Stmt :=
  if c.isWhole then .cls name fields methods else .eval .dangling

theorem classOf_of_isWhole {c : Class} (h : c.isWhole = true) (name : Expr) (fields : List Expr)
    (methods : List Method) : classOf c name fields methods = .cls name fields methods :=
  if_pos h

mutual

/-- The JavaScript of a statement; there is none for a statement that is not there. -/
def stmt : Typed.Stmt → Gen (List Stmt)
  | .missing => return []
  | .declare v init => do
    let name ← varName v
    return [.declare name (← expr init)]
  | .function f params body => do
    let name ← functionName f
    let params ← params.mapM varName
    return [.function name params (← stmts body)]
  | .cls none _ => return [.eval .dangling]
  | .cls (some c) methods => do
    let name ← className (some c.ref)
    let fields ← c.fields.mapM fieldName
    let _ ← c.methods.mapM methodName
    return [classOf c name fields (← methodBodies methods)]
  | .assign target source => do
    let target ← expr target
    return [.assign target (← expr source)]
  | .bump op target => return [.bump op (← expr target)]
  | .branch test consequent alternate => do
    let test ← expr test
    let consequent ← stmts consequent
    let otherwise ← stmts alternate
    return [.branch (.mk test consequent (otherwiseOf alternate.length otherwise))]
  | .shortBranch test consequent => do
    let test ← expr test
    return [.branch (.mk test (← stmts consequent) .nothing)]
  | .loop test body => do
    let test ← expr test
    return [.loop test (← stmts body)]
  | .forEach v collection body => do
    let name ← varName v
    let collection ← expr collection
    return [.forOf name collection (← stmts body)]
  | .leave => return [.leave]
  | .ret .missing => return [.ret none]
  | .ret value => return [.ret (some (← expr value))]
  | .print value => return [.log (← expr value)]
  | .call callee args type => return [.eval (← expr (.call callee args type))]
  | .missingCall => return [.eval .dangling]

/-- The JavaScript of statements in a row. -/
def stmts : List Typed.Stmt → Gen (List Stmt)
  | [] => return []
  | s :: rest => do
    let s ← stmt s
    return s ++ (← stmts rest)

/-- The JavaScript of methods in a row. -/
def methodBodies : List Typed.MethodBody → Gen (List Method)
  | [] => return []
  | .mk m params body :: rest => do
    let name ← methodName m
    let params ← params.mapM varName
    let body ← stmts body
    return .mk name params body :: (← methodBodies rest)

end

def generate (program : Typed.Program) : Program := (stmts program []).1

def generateText (program : Typed.Program) : Text := (generate program).text

end PeakLang.Js
