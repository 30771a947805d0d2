import PeakLang.Proofs.Token.Lexeme
import PeakLang.Tree.Format
import PeakLang.Tree.Parser

namespace PeakLang

namespace TypeExpr

def isFunction : TypeExpr → Bool
  | function _ _ _ => true
  | _ => false

/-- Whether a type is an array type, with any number of `?` after it. -/
def isArrayLike : TypeExpr → Bool
  | array _ _ => true
  | optional base _ => base.isArrayLike
  | _ => false

mutual

/-- Whether a type can come from a source. An optional function type would read as a function with an
optional result. -/
def Legible : TypeExpr → Prop
  | named name _ => Lexeme.IsName name
  | array base _ => base.Legible
  | optional base _ => base.Legible ∧ base.isFunction = false
  | function params result _ => LegibleAll params ∧ result.Legible

def LegibleAll : List TypeExpr → Prop
  | [] => True
  | t :: rest => t.Legible ∧ LegibleAll rest

end

end TypeExpr

namespace Tree

namespace Expr

mutual

/-- Whether an expression can come from a source. -/
def Legible : Expr → Prop
  | name n _ => Lexeme.IsName n
  | shot _ | bool _ _ => True
  | int digits _ => Lexeme.IsNumber false digits
  | float digits _ => Lexeme.IsNumber true digits
  | string value _ => Lexeme.IsStringValue value
  | array elements _ => LegibleAll elements
  | emptyArray type _ => type.Legible ∧ type.isArrayLike = true
  | member object n _ => object.Legible ∧ Lexeme.IsName n
  | index object i _ => object.Legible ∧ i.Legible
  | call callee args _ => callee.Legible ∧ LegibleAll args
  | unary _ operand _ => operand.Legible
  | binary _ left right _ => left.Legible ∧ right.Legible
  | conditional test consequent alternate _ =>
    test.Legible ∧ consequent.Legible ∧ alternate.Legible

def LegibleAll : List Expr → Prop
  | [] => True
  | e :: rest => e.Legible ∧ LegibleAll rest

end

/-- The kind of the first token of an expression as it is written. -/
def head : Expr → TokenKind
  | name _ _ => .ident
  | shot _ => .kwShot
  | int _ _ => .intLit
  | float _ _ => .floatLit
  | string _ _ => .stringLit
  | bool value _ => if value then .kwTrue else .kwFalse
  | array _ _ | emptyArray _ _ => .lbracket
  | member object _ _ | index object _ _ | call object _ _ =>
    if object.level < 7 then .lparen else object.head
  | unary op _ _ => op.token
  | binary op left _ _ => if left.level < leftLevel op then .lparen else left.head
  | conditional test _ _ _ => if test.level < 1 then .lparen else test.head

end Expr

/-- Whether an operand ends before a token: no member, index or call follows. -/
def endsAccess (k : TokenKind) : Bool := k != .lbracket && k != .dot && k != .lparen

/-- Whether an operand with its operators before it, or a power, ends before a token. -/
def endsFactor (k : TokenKind) : Bool := endsAccess k && k != .power

/-- Whether an operation ends before a token, at a level. -/
def endsOperation (level : Nat) (k : TokenKind) : Bool :=
  endsFactor k && (BinaryOp.ofToken? k).all fun op => op.level < level

/-- Whether an expression ends before a token. -/
def endsExpression (k : TokenKind) : Bool := endsOperation 1 k && k != .question

namespace Stmt

/-- The kind of the first token of a statement as it is written. -/
def head : Stmt → TokenKind
  | declare _ readOnly _ _ => if readOnly then .kwConst else .kwLet
  | function _ => .kwItem
  | cls _ _ _ _ => .kwOrder
  | assign target _ _ | bump _ target _ => target.head
  | branch _ => .kwBrew
  | loop _ _ _ _ => .kwBlend
  | forEach _ _ _ _ _ _ => .kwRistretto
  | leave _ => .kwTamp
  | ret _ _ => .kwServe
  | print _ _ => .kwRemake
  | call callee args callPos _ => (Expr.call callee args callPos).head

def endsBefore (k : TokenKind) : Stmt → Bool
  | declare _ _ _ _ | assign _ _ _ | ret (some _) _ | print _ _ => endsExpression k
  | call _ _ _ _ => endsAccess k && k != .assign && (BumpOp.ofToken? k).isNone
  | ret none _ => !Parser.startsExpression k
  | _ => true

end Stmt

/-- Whether a parameter can come from a source. -/
def Param.Legible (p : Param) : Prop := Lexeme.IsName p.name ∧ p.type.Legible

/-- Whether a field can come from a source. -/
def Field.Legible (f : Field) : Prop := Lexeme.IsName f.name ∧ f.type.Legible

mutual

/-- Whether a statement can come from a source. -/
def Stmt.Legible : Stmt → Prop
  | .declare name _ value _ => Lexeme.IsName name ∧ value.Legible
  | .function f => f.Legible
  | .cls name fields methods _ =>
    Lexeme.IsName name ∧ (∀ f ∈ fields, f.Legible) ∧ Func.LegibleAll methods
  | .assign target value _ => target.Legible ∧ value.Legible
  | .bump _ target _ => target.Legible
  | .branch b => b.Legible
  | .loop test body _ _ => test.Legible ∧ Stmt.LegibleAll body
  | .forEach name _ collection body _ _ =>
    Lexeme.IsName name ∧ collection.Legible ∧ Stmt.LegibleAll body
  | .leave _ => True
  | .ret value _ => ∀ e ∈ value, e.Legible
  | .print value _ => value.Legible
  | .call callee args _ _ => callee.Legible ∧ Expr.LegibleAll args

def Func.Legible : Func → Prop
  | .mk name params result body _ _ =>
    Lexeme.IsName name ∧ (∀ p ∈ params, p.Legible) ∧ (∀ t ∈ result, t.Legible) ∧
      Stmt.LegibleAll body

def Branch.Legible : Branch → Prop
  | .mk test body _ otherwise _ => test.Legible ∧ Stmt.LegibleAll body ∧ otherwise.Legible

def Otherwise.Legible : Otherwise → Prop
  | .nothing => True
  | .block body _ => Stmt.LegibleAll body
  | .chain next => next.Legible

def Stmt.LegibleAll : List Stmt → Prop
  | [] => True
  | s :: rest =>
    s.Legible ∧ (∀ next ∈ rest.head?, s.endsBefore next.head = true) ∧ Stmt.LegibleAll rest

def Func.LegibleAll : List Func → Prop
  | [] => True
  | f :: rest => f.Legible ∧ Func.LegibleAll rest

end

end Tree

end PeakLang
