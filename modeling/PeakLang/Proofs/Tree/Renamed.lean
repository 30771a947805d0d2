import PeakLang.Proofs.Renaming
import PeakLang.Tree

namespace PeakLang

variable (r : Renaming)

namespace TypeExpr

mutual

def renamed : TypeExpr → TypeExpr
  | named name p => .named (r name) p
  | array base p => .array base.renamed p
  | optional base p => .optional base.renamed p
  | function params result p => .function (renamedAll params) result.renamed p

def renamedAll : List TypeExpr → List TypeExpr
  | [] => []
  | t :: rest => t.renamed :: renamedAll rest

end

end TypeExpr

namespace Tree

namespace Expr

mutual

/-- An expression with its names renamed. -/
def renamed : Expr → Expr
  | name n p => .name (r n) p
  | shot p => .shot p
  | int digits p => .int digits p
  | float digits p => .float digits p
  | string value p => .string value p
  | bool value p => .bool value p
  | array elements p => .array (renamedAll elements) p
  | emptyArray type p => .emptyArray (type.renamed r) p
  | member object n p => .member object.renamed (r n) p
  | index object i p => .index object.renamed i.renamed p
  | call callee args p => .call callee.renamed (renamedAll args) p
  | unary op operand p => .unary op operand.renamed p
  | binary op left right p => .binary op left.renamed right.renamed p
  | conditional test consequent alternate p =>
    .conditional test.renamed consequent.renamed alternate.renamed p

def renamedAll : List Expr → List Expr
  | [] => []
  | e :: rest => e.renamed :: renamedAll rest

end

end Expr

def Param.renamed (p : Param) : Param := ⟨r p.name, p.type.renamed r, p.pos⟩

def Field.renamed (x : Field) : Field := ⟨r x.name, x.type.renamed r, x.pos⟩

mutual

/-- A statement with its names renamed. -/
def Stmt.renamed : Stmt → Stmt
  | .declare name readOnly value p => .declare (r name) readOnly (value.renamed r) p
  | .function decl => .function decl.renamed
  | .cls name fields methods p =>
    .cls (r name) (fields.map (Field.renamed r)) (Func.renamedAll methods) p
  | .assign target value p => .assign (target.renamed r) (value.renamed r) p
  | .bump op target p => .bump op (target.renamed r) p
  | .branch b => .branch b.renamed
  | .loop test body bodyPos p => .loop (test.renamed r) (Stmt.renamedAll body) bodyPos p
  | .forEach name namePos collection body bodyPos p =>
    .forEach (r name) namePos (collection.renamed r) (Stmt.renamedAll body) bodyPos p
  | .leave p => .leave p
  | .ret value p => .ret (value.map (Expr.renamed r)) p
  | .print value p => .print (value.renamed r) p
  | .call callee args callPos p => .call (callee.renamed r) (Expr.renamedAll r args) callPos p

def Func.renamed : Func → Func
  | .mk name params result body bodyPos p =>
    .mk (r name) (params.map (Param.renamed r)) (result.map (TypeExpr.renamed r))
      (Stmt.renamedAll body) bodyPos p

def Branch.renamed : Branch → Branch
  | .mk test body bodyPos otherwise p =>
    .mk (test.renamed r) (Stmt.renamedAll body) bodyPos otherwise.renamed p

def Otherwise.renamed : Otherwise → Otherwise
  | .nothing => .nothing
  | .block body bodyPos => .block (Stmt.renamedAll body) bodyPos
  | .chain next => .chain next.renamed

def Stmt.renamedAll : List Stmt → List Stmt
  | [] => []
  | s :: rest => s.renamed :: Stmt.renamedAll rest

def Func.renamedAll : List Func → List Func
  | [] => []
  | x :: rest => x.renamed :: Func.renamedAll rest

end

def Program.renamed (program : Program) : Program := Stmt.renamedAll r program

end Tree

end PeakLang
