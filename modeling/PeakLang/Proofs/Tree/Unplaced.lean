import PeakLang.Tree.Format

namespace PeakLang

/-- A token moved to the start of the source. -/
def Token.unplaced (t : Token) : Token := { t with pos := .start }

namespace TypeExpr

mutual

/-- A type with all its positions at the start of the source. -/
def unplaced : TypeExpr → TypeExpr
  | named name _ => .named name .start
  | array base _ => .array base.unplaced .start
  | optional base _ => .optional base.unplaced .start
  | function params result _ => .function (unplacedAll params) result.unplaced .start

def unplacedAll : List TypeExpr → List TypeExpr
  | [] => []
  | t :: rest => t.unplaced :: unplacedAll rest

end

end TypeExpr

namespace Tree

namespace Expr

mutual

/-- An expression with all its positions at the start of the source. -/
def unplaced : Expr → Expr
  | name n _ => .name n .start
  | shot _ => .shot .start
  | int digits _ => .int digits .start
  | float digits _ => .float digits .start
  | string value _ => .string value .start
  | bool value _ => .bool value .start
  | array elements _ => .array (unplacedAll elements) .start
  | emptyArray type _ => .emptyArray type.unplaced .start
  | member object n _ => .member object.unplaced n .start
  | index object i _ => .index object.unplaced i.unplaced .start
  | call callee args _ => .call callee.unplaced (unplacedAll args) .start
  | unary op operand _ => .unary op operand.unplaced .start
  | binary op left right _ => .binary op left.unplaced right.unplaced .start
  | conditional test consequent alternate _ =>
    .conditional test.unplaced consequent.unplaced alternate.unplaced .start

def unplacedAll : List Expr → List Expr
  | [] => []
  | e :: rest => e.unplaced :: unplacedAll rest

end

end Expr

/-- A parameter with its positions at the start of the source. -/
def Param.unplaced (p : Param) : Param := ⟨p.name, p.type.unplaced, .start⟩

/-- A field with its positions at the start of the source. -/
def Field.unplaced (f : Field) : Field := ⟨f.name, f.type.unplaced, .start⟩

mutual

/-- A statement with all its positions at the start of the source. -/
def Stmt.unplaced : Stmt → Stmt
  | .declare name readOnly value _ => .declare name readOnly value.unplaced .start
  | .function f => .function f.unplaced
  | .cls name fields methods _ =>
    .cls name (fields.map Field.unplaced) (Func.unplacedAll methods) .start
  | .assign target value _ => .assign target.unplaced value.unplaced .start
  | .bump op target _ => .bump op target.unplaced .start
  | .branch b => .branch b.unplaced
  | .loop test body _ _ => .loop test.unplaced (Stmt.unplacedAll body) .start .start
  | .forEach name _ collection body _ _ =>
    .forEach name .start collection.unplaced (Stmt.unplacedAll body) .start .start
  | .leave _ => .leave .start
  | .ret value _ => .ret (value.map Expr.unplaced) .start
  | .print value _ => .print value.unplaced .start
  | .call callee args _ _ => .call callee.unplaced (Expr.unplacedAll args) .start .start

def Func.unplaced : Func → Func
  | .mk name params result body _ _ =>
    .mk name (params.map Param.unplaced) (result.map TypeExpr.unplaced) (Stmt.unplacedAll body)
      .start .start

def Branch.unplaced : Branch → Branch
  | .mk test body _ otherwise _ =>
    .mk test.unplaced (Stmt.unplacedAll body) .start otherwise.unplaced .start

def Otherwise.unplaced : Otherwise → Otherwise
  | .nothing => .nothing
  | .block body _ => .block (Stmt.unplacedAll body) .start
  | .chain next => .chain next.unplaced

def Stmt.unplacedAll : List Stmt → List Stmt
  | [] => []
  | s :: rest => s.unplaced :: Stmt.unplacedAll rest

def Func.unplacedAll : List Func → List Func
  | [] => []
  | f :: rest => f.unplaced :: Func.unplacedAll rest

end

/-- A program with all its positions at the start of the source. -/
def Program.unplaced (program : Program) : Program := Stmt.unplacedAll program

end Tree

end PeakLang
