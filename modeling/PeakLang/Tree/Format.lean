import PeakLang.Token.StringLiteral
import PeakLang.Tree.Piece

namespace PeakLang.Tree

namespace Expr

/-- How tightly an expression binds, from conditionals (0) over operators (1 to 6) to operands. -/
def level : Expr → Nat
  | conditional _ _ _ _ => 0
  | binary op _ _ _ => op.level
  | unary _ _ _ => 6
  | _ => 7

def isNegation : Expr → Bool
  | unary .neg _ _ => true
  | _ => false

def enclosed (pieces : List Piece) : List Piece :=
  .mark .lparen :: (pieces ++ [.mark .rparen])

/-- Pieces in parentheses if a condition holds. -/
def enclosedIf (condition : Bool) (pieces : List Piece) : List Piece :=
  if condition then enclosed pieces else pieces

/-- The least level of an operator's left operand: powers nest to the right and comparisons not at
all. -/
def leftLevel (op : BinaryOp) : Nat :=
  if op == .pow || op.isComparison then op.level + 1 else op.level

/-- The least level of an operator's right operand. -/
def rightLevel (op : BinaryOp) : Nat := if op == .pow then op.level else op.level + 1

mutual

/-- An expression as it is written, without parentheses around it. A negation of a negation is
written with parentheses, as two signs in a row would be one token. -/
def pieces : Expr → List Piece
  | name n _ => [.name n]
  | shot _ => [.mark .kwShot]
  | int digits _ => [.token .intLit digits]
  | float digits _ => [.token .floatLit digits]
  | string value _ => [.token .stringLit (StringLiteral.encode value)]
  | bool value _ => [.mark (if value then .kwTrue else .kwFalse)]
  | array elements _ =>
    .mark .lbracket :: (Piece.separated [.mark .comma, .space] (piecesOfAll elements) ++
      [.mark .rbracket])
  | emptyArray type _ => type.pieces ++ [.mark .lparen, .mark .rparen]
  | member object n _ => enclosedIf (object.level < 7) object.pieces ++ [.mark .dot, .name n]
  | index object i _ =>
    enclosedIf (object.level < 7) object.pieces ++
      .mark .lbracket :: (i.pieces ++ [.mark .rbracket])
  | call callee args _ =>
    enclosedIf (callee.level < 7) callee.pieces ++ .mark .lparen ::
      (Piece.separated [.mark .comma, .space] (piecesOfAll args) ++ [.mark .rparen])
  | unary .not operand _ =>
    .mark .kwNot :: .space :: enclosedIf (operand.level < 6) operand.pieces
  | unary .neg operand _ =>
    .mark .minus :: enclosedIf (operand.level < 6 || operand.isNegation) operand.pieces
  | binary op left right _ =>
    enclosedIf (left.level < leftLevel op) left.pieces ++
      .space :: .mark op.token :: .space :: enclosedIf (right.level < rightLevel op) right.pieces
  | conditional test consequent alternate _ =>
    enclosedIf (test.level < 1) test.pieces ++ .space :: .mark .question :: .space ::
      (consequent.pieces ++ .space :: .mark .colon :: .space :: alternate.pieces)

def piecesOfAll : List Expr → List (List Piece)
  | [] => []
  | e :: rest => e.pieces :: piecesOfAll rest

end

end Expr

def formatLine (depth : Nat) (pieces : List Piece) : List Piece :=
  .indent depth :: (pieces ++ [.newline])

def typedName (name : Text) (type : TypeExpr) : List Piece :=
  .name name :: .mark .colon :: .space :: type.pieces

/-- The head of a function, up to its opening brace. -/
def functionHead (name : Text) (params : List Param) (result : Option TypeExpr) : List Piece :=
  .mark .kwItem :: .space :: .name name :: .mark .lparen ::
    (Piece.separated [.mark .comma, .space] (params.map fun p => typedName p.name p.type) ++
      .mark .rparen ::
      ((result.toList.flatMap fun t => .space :: .mark .arrow :: .space :: t.pieces) ++
        [.space, .mark .lbrace]))

def closing (depth : Nat) : List Piece := formatLine depth [.mark .rbrace]

mutual

/-- A statement as it is written at a depth. -/
def Stmt.pieces (depth : Nat) : Stmt → List Piece
  | .declare name readOnly value _ =>
    formatLine depth (.mark (if readOnly then .kwConst else .kwLet) :: .space :: .name name ::
      .space :: .mark .assign :: .space :: value.pieces)
  | .function f => f.pieces depth
  | .cls name fields methods _ =>
    formatLine depth [.mark .kwOrder, .space, .name name, .space, .mark .lbrace] ++
      (fields.flatMap fun f => formatLine (depth + 1) (typedName f.name f.type)) ++
      Func.piecesOfAll (depth + 1) (!fields.isEmpty) methods ++ closing depth
  | .assign target value _ =>
    formatLine depth (target.pieces ++ .space :: .mark .assign :: .space :: value.pieces)
  | .bump op target _ => formatLine depth (target.pieces ++ [.mark op.token])
  | .branch b => .indent depth :: b.pieces depth
  | .loop test body _ _ =>
    formatLine depth (.mark .kwBlend :: .space :: (test.pieces ++ [.space, .mark .lbrace])) ++
      Stmt.piecesOfAll (depth + 1) body ++ closing depth
  | .forEach name _ collection body _ _ =>
    formatLine depth (.mark .kwRistretto :: .space :: .name name :: .space :: .mark .kwEspresso ::
      .space :: (collection.pieces ++ [.space, .mark .lbrace])) ++
      Stmt.piecesOfAll (depth + 1) body ++ closing depth
  | .leave _ => formatLine depth [.mark .kwTamp]
  | .ret none _ => formatLine depth [.mark .kwServe]
  | .ret (some value) _ => formatLine depth (.mark .kwServe :: .space :: value.pieces)
  | .print value _ => formatLine depth (.mark .kwRemake :: .space :: value.pieces)
  | .call callee args callPos _ => formatLine depth (Expr.call callee args callPos).pieces

/-- A function as it is written at a depth. -/
def Func.pieces (depth : Nat) : Func → List Piece
  | .mk name params result body _ _ =>
    formatLine depth (functionHead name params result) ++ Stmt.piecesOfAll (depth + 1) body ++
      closing depth

/-- A branch at a depth, continuing a line. -/
def Branch.pieces (depth : Nat) : Branch → List Piece
  | .mk test body _ otherwise _ =>
    .mark .kwBrew :: .space :: (test.pieces ++ .space :: .mark .lbrace :: .newline ::
      (Stmt.piecesOfAll (depth + 1) body ++ otherwise.pieces depth))

/-- The closing brace of a branch's body and what follows it. -/
def Otherwise.pieces (depth : Nat) : Otherwise → List Piece
  | .nothing => closing depth
  | .block body _ =>
    formatLine depth [.mark .rbrace, .space, .mark .kwPull, .space, .mark .lbrace] ++
      Stmt.piecesOfAll (depth + 1) body ++ closing depth
  | .chain next =>
    .indent depth :: .mark .rbrace :: .space :: .mark .kwPull :: .space :: next.pieces depth

def Stmt.piecesOfAll (depth : Nat) : List Stmt → List Piece
  | [] => []
  | s :: rest => s.pieces depth ++ Stmt.piecesOfAll depth rest

def Func.piecesOfAll (depth : Nat) (apart : Bool) : List Func → List Piece
  | [] => []
  | f :: rest =>
    (if apart then [.newline] else []) ++ f.pieces depth ++ Func.piecesOfAll depth true rest

end

namespace Stmt

/-- Functions and classes, which stand apart from their neighbours. -/
def isDeclaration : Stmt → Bool
  | function _ | cls _ _ _ _ => true
  | _ => false

/-- The statements of a program, with an empty line wherever a function or a class has a
neighbour. -/
def piecesApart : (before : Option Stmt) → List Stmt → List Piece
  | _, [] => []
  | before, s :: rest =>
    (if before.any fun b => s.isDeclaration || b.isDeclaration then [.newline] else []) ++
      s.pieces 0 ++ piecesApart (some s) rest

end Stmt

namespace Program

def pieces (program : Program) : List Piece := Stmt.piecesApart none program

/-- The canonical source text of a program: one statement to a line, four spaces for each level of
nesting, and no parentheses but those that precedence asks for. Comments are no part of a tree, so they
are not written. -/
def format (program : Program) : Text := Piece.render program.pieces

end Program

end PeakLang.Tree
