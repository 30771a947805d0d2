import PeakLang.Entity
import PeakLang.Number.Binary64
import PeakLang.Token
import PeakLang.Tree

namespace PeakLang.Typed

/-- Expressions. An operation may carry any token for its operator; only some have a meaning. A node or
a reference that is not there is `missing` or `none`. -/
inductive Expr where
  | missing
  | int (value : Int64)
  | float (value : Binary64)
  | string (value : Text)
  | bool (value : Bool)
  | var (var : Option Variable)
  | function (fn : Option Function)
  | cls (cls : Option ClassRef) (type : Ty)
  | self (cls : Option ClassRef)
  | unary (op : TokenKind) (operand : Expr) (type : Ty)
  | binary (op : TokenKind) (left right : Expr) (type : Ty)
  | conditional (test consequent alternate : Expr) (type : Ty)
  | call (callee : Expr) (args : List Expr) (type : Ty)
  | index (object index : Expr) (type : Ty)
  | member (object : Expr) (field : Option Field) (method : Option Method) (type : Ty)
  | array (elements : List Expr) (type : Ty)
  | emptyArray (type : Ty)

namespace Expr

def type : Expr → Ty
  | missing => .untyped
  | int _ => .pump
  | float _ => .affogato
  | string _ => .roast
  | bool _ => .boolean
  | var v => (v.map Variable.type).getD .untyped
  | function f => (f.map Function.type).getD .untyped
  | self c => (c.map Ty.cls).getD .untyped
  | cls _ t | unary _ _ t | binary _ _ _ t | conditional _ _ _ t | call _ _ t | index _ _ t
  | member _ _ _ t | array _ t | emptyArray t => t

/-- Whether an expression is a constant. -/
def isLiteral : Expr → Bool
  | int _ | float _ | string _ | bool _ => true
  | _ => false

/-- Whether two expressions are references to one variable or to one function. -/
def sameEntity : Expr → Expr → Bool
  | var v, var w => v.map Variable.id == w.map Variable.id
  | function f, function g => f.map Function.id == g.map Function.id
  | _, _ => false

end Expr

mutual

/-- Statements. A return whose value is missing returns nothing; a call statement may lack its
call. -/
inductive Stmt where
  | missing
  | declare (var : Option Variable) (init : Expr)
  | function (fn : Option Function) (params : List (Option Variable)) (body : List Stmt)
  | cls (cls : Option Class) (methods : List MethodBody)
  | assign (target source : Expr)
  | bump (op : BumpOp) (target : Expr)
  | branch (test : Expr) (consequent alternate : List Stmt)
  | shortBranch (test : Expr) (consequent : List Stmt)
  | loop (test : Expr) (body : List Stmt)
  | forEach (iterator : Option Variable) (collection : Expr) (body : List Stmt)
  | leave
  | ret (value : Expr)
  | print (value : Expr)
  | call (callee : Expr) (args : List Expr) (type : Ty)
  | missingCall

inductive MethodBody where
  | mk (method : Option Method) (params : List (Option Variable)) (body : List Stmt)

end

abbrev Program := List Stmt

end PeakLang.Typed
