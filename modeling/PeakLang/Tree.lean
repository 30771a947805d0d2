import PeakLang.Token

namespace PeakLang

/-- Operators with two operands. -/
inductive BinaryOp where
  | or | and
  | lt | gt | leq | geq | eq | neq
  | add | sub
  | mul | div | rem
  | pow
deriving DecidableEq

namespace BinaryOp

def token : BinaryOp → TokenKind
  | or => .kwOr
  | and => .kwAnd
  | lt => .lt
  | gt => .gt
  | leq => .leq
  | geq => .geq
  | eq => .eq
  | neq => .neq
  | add => .plus
  | sub => .minus
  | mul => .star
  | div => .slash
  | rem => .percent
  | pow => .power

/-- The operator that a token stands for between two operands. -/
def ofToken? : TokenKind → Option BinaryOp
  | .kwOr => some or
  | .kwAnd => some and
  | .lt => some lt
  | .gt => some gt
  | .leq => some leq
  | .geq => some geq
  | .eq => some eq
  | .neq => some neq
  | .plus => some add
  | .minus => some sub
  | .star => some mul
  | .slash => some div
  | .percent => some rem
  | .power => some pow
  | _ => none

/-- How tightly an operator binds: disjunction least, powers most. -/
def level : BinaryOp → Nat
  | or => 1
  | and => 2
  | lt | gt | leq | geq | eq | neq => 3
  | add | sub => 4
  | mul | div | rem => 5
  | pow => 6

/-- Comparisons, which do not chain. -/
def isComparison : BinaryOp → Bool
  | lt | gt | leq | geq | eq | neq => true
  | _ => false

end BinaryOp

/-- Operators with one operand, which they precede. -/
inductive UnaryOp where
  | neg | not
deriving DecidableEq

namespace UnaryOp

def token : UnaryOp → TokenKind
  | neg => .minus
  | not => .kwNot

/-- The operator that a token stands for before its operand. -/
def ofToken? : TokenKind → Option UnaryOp
  | .minus => some neg
  | .kwNot => some not
  | _ => none

end UnaryOp

/-- The statements that step a variable by one. -/
inductive BumpOp where
  | increment | decrement
deriving DecidableEq

namespace BumpOp

def token : BumpOp → TokenKind
  | increment => .increment
  | decrement => .decrement

/-- The step that a token stands for. -/
def ofToken? : TokenKind → Option BumpOp
  | .increment => some increment
  | .decrement => some decrement
  | _ => none

end BumpOp

/-- Types as they are written. -/
inductive TypeExpr where
  | named (name : Text) (pos : Pos)
  | array (base : TypeExpr) (pos : Pos)
  | optional (base : TypeExpr) (pos : Pos)
  | function (params : List TypeExpr) (result : TypeExpr) (pos : Pos)

namespace TypeExpr

/-- The position of a type: its first token, or the `?` of an optional one. -/
def pos : TypeExpr → Pos
  | named _ p | array _ p | optional _ p | function _ _ p => p

end TypeExpr

namespace Tree

/-- Expressions. Numbers are kept as they are written, strings as what they stand for. Every node of a
tree has the position of the token that a message about it points at. -/
inductive Expr where
  | name (name : Text) (pos : Pos)
  | shot (pos : Pos)
  | int (digits : Text) (pos : Pos)
  | float (digits : Text) (pos : Pos)
  | string (value : Text) (pos : Pos)
  | bool (value : Bool) (pos : Pos)
  | array (elements : List Expr) (pos : Pos)
  | emptyArray (type : TypeExpr) (pos : Pos)
  | member (object : Expr) (name : Text) (pos : Pos)
  | index (object index : Expr) (pos : Pos)
  | call (callee : Expr) (args : List Expr) (pos : Pos)
  | unary (op : UnaryOp) (operand : Expr) (pos : Pos)
  | binary (op : BinaryOp) (left right : Expr) (pos : Pos)
  | conditional (test consequent alternate : Expr) (pos : Pos)

namespace Expr

/-- The position of an expression: the name of a member, the bracket of a call or an index, the
operator of an operation, the colon of a conditional, else the first token. -/
def pos : Expr → Pos
  | name _ p | shot p | int _ p | float _ p | string _ p | bool _ p | array _ p | emptyArray _ p
  | member _ _ p | index _ _ p | call _ _ p | unary _ _ p | binary _ _ _ p
  | conditional _ _ _ p => p

end Expr

/-- A parameter of a function. -/
structure Param where
  name : Text
  type : TypeExpr
  pos : Pos

structure Field where
  name : Text
  type : TypeExpr
  pos : Pos

mutual

/-- Statements. A body comes with the position of its opening brace, a call with that of its opening
parenthesis. -/
inductive Stmt where
  | declare (name : Text) (readOnly : Bool) (value : Expr) (pos : Pos)
  | function (decl : Func)
  | cls (name : Text) (fields : List Field) (methods : List Func) (pos : Pos)
  | assign (target value : Expr) (pos : Pos)
  | bump (op : BumpOp) (target : Expr) (pos : Pos)
  | branch (decision : Branch)
  | loop (test : Expr) (body : List Stmt) (bodyPos : Pos) (pos : Pos)
  | forEach (name : Text) (namePos : Pos) (collection : Expr) (body : List Stmt) (bodyPos : Pos)
      (pos : Pos)
  | leave (pos : Pos)
  | ret (value : Option Expr) (pos : Pos)
  | print (value : Expr) (pos : Pos)
  | call (callee : Expr) (args : List Expr) (callPos : Pos) (pos : Pos)

/-- A function or a method. -/
inductive Func where
  | mk (name : Text) (params : List Param) (result : Option TypeExpr) (body : List Stmt)
      (bodyPos : Pos) (pos : Pos)

/-- A test with the body to run if it holds. -/
inductive Branch where
  | mk (test : Expr) (body : List Stmt) (bodyPos : Pos) (otherwise : Otherwise) (pos : Pos)

/-- What follows the body of a branch: nothing, a body, or another branch. -/
inductive Otherwise where
  | nothing
  | block (body : List Stmt) (bodyPos : Pos)
  | chain (next : Branch)

end

namespace Func

def name : Func → Text
  | mk n _ _ _ _ _ => n

/-- The parameters of a function. -/
def params : Func → List Param
  | mk _ ps _ _ _ _ => ps

/-- The result type of a function, if it is written. -/
def result : Func → Option TypeExpr
  | mk _ _ r _ _ _ => r

/-- The statements of a function. -/
def body : Func → List Stmt
  | mk _ _ _ b _ _ => b

/-- The position of the opening brace of a function. -/
def bodyPos : Func → Pos
  | mk _ _ _ _ p _ => p

/-- The position of a function's name. -/
def pos : Func → Pos
  | mk _ _ _ _ _ p => p

end Func

namespace Branch

/-- The position of a branch: the word that starts it. -/
def pos : Branch → Pos
  | mk _ _ _ _ p => p

end Branch

namespace Stmt

/-- The position of a statement: the name that it declares, else its first token. -/
def pos : Stmt → Pos
  | function f => f.pos
  | branch b => b.pos
  | declare _ _ _ p | cls _ _ _ p | assign _ _ p | bump _ _ p | loop _ _ _ p
  | forEach _ _ _ _ _ p | leave p | ret _ p | print _ p | call _ _ _ p => p

end Stmt

abbrev Program := List Stmt

namespace Program

/-- The position of a program: that of its first statement, if it has one. -/
def pos (program : Program) : Pos := (program.head?.map Stmt.pos).getD .start

end Program

end Tree

end PeakLang
