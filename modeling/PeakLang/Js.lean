import PeakLang.Number.Binary64
import PeakLang.Text
import PeakLang.Tree

namespace PeakLang.Js

/-- Expressions. `code` is JavaScript text that stands for itself, `undefined` the value that stands for
an expression that is not there, and `dangling` a name whose entity is not there. Parentheses are part
of a tree, so that its text can be written without knowing how tightly operators bind. -/
inductive Expr where
  | undefined
  | dangling
  | int (value : Int64)
  | float (value : Binary64)
  | string (value : Text)
  | bool (value : Bool)
  | name (name : Text)
  | code (code : Text)
  | this
  | paren (inner : Expr)
  | unary (op : Text) (operand : Expr)
  | binary (op : Text) (left right : Expr)
  | conditional (test consequent alternate : Expr)
  | call (callee : Expr) (args : List Expr)
  | new (cls : Expr) (args : List Expr)
  | index (object index : Expr)
  | member (object : Expr) (name : Expr)
  | array (elements : List Expr)

mutual

inductive Stmt where
  | declare (name init : Expr)
  | function (name : Expr) (params : List Expr) (body : List Stmt)
  | cls (name : Expr) (fields : List Expr) (methods : List Method)
  | assign (target source : Expr)
  | bump (op : BumpOp) (target : Expr)
  | branch (decision : Branch)
  | loop (test : Expr) (body : List Stmt)
  | forOf (name collection : Expr) (body : List Stmt)
  | leave
  | ret (value : Option Expr)
  | log (value : Expr)
  | eval (value : Expr)

inductive Method where
  | mk (name : Expr) (params : List Expr) (body : List Stmt)

/-- A test with the body to run if it holds. -/
inductive Branch where
  | mk (test : Expr) (body : List Stmt) (otherwise : Otherwise)

/-- What follows the body of a branch: nothing, a body, or another branch. -/
inductive Otherwise where
  | nothing
  | block (body : List Stmt)
  | chain (next : Branch)

end

abbrev Program := List Stmt

end PeakLang.Js
