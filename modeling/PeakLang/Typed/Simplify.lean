import PeakLang.Typed.Fold

namespace PeakLang.Typed

namespace Expr

/-- Whether an expression is a given truth value. -/
def isBool (value : Bool) : Expr → Bool
  | bool b => b == value
  | _ => false

/-- Whether an expression is the constant zero. -/
def isZero : Expr → Bool
  | int a => a == 0
  | float x => x.same .zero
  | _ => false

/-- Whether an expression is the constant one. -/
def isOne : Expr → Bool
  | int a => a == 1
  | float x => x.same .one
  | _ => false

/-- The constant one of a type. -/
def oneOf (type : Ty) : Expr := if type.isPrim .affogato then .float .one else .int 1

/-- What an operation with a neutral truth value comes to. -/
def logical? (op : TokenKind) (x y : Expr) : Option Expr :=
  match op with
  | .kwOr => if x.isBool false then some y else if y.isBool false then some x else none
  | .kwAnd => if x.isBool true then some y else if y.isBool true then some x else none
  | _ => none

/-- What an operation with a zero or a one comes to. -/
def algebraic? (op : TokenKind) (x y : Expr) (type : Ty) : Option Expr :=
  match op with
  | .plus => if y.isZero then some x else if x.isZero then some y else none
  | .minus =>
    if y.isZero then some x
    else if x.isZero then some (.unary .minus y type)
    else none
  | .star =>
    if y.isOne then some x
    else if x.isOne then some y
    else if y.isZero then some y
    else if x.isZero then some x
    else none
  | .slash => if y.isOne then some x else if x.isZero then some x else none
  | .power =>
    if y.isOne then some x
    else if x.isOne then some x
    else if y.isZero then some (oneOf type)
    else none
  | _ => none

/-- An operation on two simplified operands. Two constants are folded or left as they are. -/
def simplifiedBinary (op : TokenKind) (x y : Expr) (type : Ty) : Expr :=
  match logical? op x y with
  | some e => e
  | none =>
    if x.isLiteral && y.isLiteral then (Fold.binary op x y).getD (.binary op x y type)
    else (algebraic? op x y type).getD (.binary op x y type)

/-- An operation on a simplified operand. -/
def simplifiedUnary (op : TokenKind) (x : Expr) (type : Ty) : Expr :=
  (Fold.unary op x).getD (.unary op x type)

/-- A choice with a simplified test; a constant test makes the choice. -/
def simplifiedConditional (test consequent alternate : Expr) (type : Ty) : Expr :=
  match test with
  | bool true => consequent
  | bool false => alternate
  | _ => .conditional test consequent alternate type

mutual

/-- An expression simplified. -/
def simplify : Expr → Expr
  | binary op x y type => simplifiedBinary op x.simplify y.simplify type
  | unary op x type => simplifiedUnary op x.simplify type
  | conditional test consequent alternate type =>
    simplifiedConditional test.simplify consequent.simplify alternate.simplify type
  | call callee args type => .call callee.simplify (simplifyAll args) type
  | index object i type => .index object.simplify i.simplify type
  | member object field method type => .member object.simplify field method type
  | array elements type => .array (simplifyAll elements) type
  | missing => .missing
  | int value => .int value
  | float value => .float value
  | string value => .string value
  | bool value => .bool value
  | var v => .var v
  | function f => .function f
  | cls c type => .cls c type
  | self c => .self c
  | emptyArray type => .emptyArray type

def simplifyAll : List Expr → List Expr
  | [] => []
  | e :: rest => e.simplify :: simplifyAll rest

end

end Expr

mutual

/-- What a statement comes to: any number of statements. -/
def Stmt.simplify : Stmt → List Stmt
  | .declare v init => [.declare v init.simplify]
  | .function f params body => [.function f params (Stmt.simplifyAll body)]
  | .cls c methods => [.cls c (MethodBody.simplifyAll methods)]
  | .assign target source =>
    if target.simplify.sameEntity source.simplify then []
    else [.assign target.simplify source.simplify]
  | .bump op target => [.bump op target.simplify]
  | .branch test consequent alternate =>
    match test.simplify with
    | .bool true => Stmt.simplifyAll consequent
    | .bool false => Stmt.simplifyAll alternate
    | test => [.branch test (Stmt.simplifyAll consequent) (Stmt.simplifyAll alternate)]
  | .shortBranch test consequent =>
    match test.simplify with
    | .bool true => Stmt.simplifyAll consequent
    | .bool false => []
    | test => [.shortBranch test (Stmt.simplifyAll consequent)]
  | .loop test body =>
    match test.simplify with
    | .bool false => []
    | test => [.loop test (Stmt.simplifyAll body)]
  | .forEach v collection body =>
    match collection.simplify with
    | .emptyArray _ => []
    | collection => [.forEach v collection (Stmt.simplifyAll body)]
  | .ret value => [.ret value.simplify]
  | .print value => [.print value.simplify]
  | .call callee args type => [.call callee.simplify (Expr.simplifyAll args) type]
  | .missing => [.missing]
  | .leave => [.leave]
  | .missingCall => [.missingCall]

def MethodBody.simplify : MethodBody → MethodBody
  | .mk m params body => .mk m params (Stmt.simplifyAll body)

def Stmt.simplifyAll : List Stmt → List Stmt
  | [] => []
  | s :: rest => s.simplify ++ Stmt.simplifyAll rest

def MethodBody.simplifyAll : List MethodBody → List MethodBody
  | [] => []
  | m :: rest => m.simplify :: MethodBody.simplifyAll rest

end

def Program.simplify (program : Program) : Program := Stmt.simplifyAll program

end PeakLang.Typed
