import PeakLang.Tree

namespace PeakLang

/-- A piece of source text. A tree is written as pieces first, so that its tokens are at hand without
reading the text again. -/
inductive Piece where
  | token (kind : TokenKind) (literal : Text)
  | blank (text : Text)
deriving DecidableEq

namespace Piece

/-- A token that has only one spelling. -/
def mark (kind : TokenKind) : Piece := .token kind (kind.spelling?.getD [])

def name (literal : Text) : Piece := .token .ident literal

def space : Piece := .blank " "

/-- The end of a line. -/
def newline : Piece := .blank "\n"

/-- The start of a line, four spaces for each level. -/
def indent (depth : Nat) : Piece := .blank (Text.repeated depth "    ")

def text : Piece → Text
  | token _ literal => literal
  | blank t => t

def render (pieces : List Piece) : Text := pieces.flatMap text

/-- The kind and the literal of a piece that is a token. -/
def token? : Piece → Option (TokenKind × Text)
  | token kind literal => some (kind, literal)
  | blank _ => none

def tokens (pieces : List Piece) : List (TokenKind × Text) := pieces.filterMap token?

/-- Items with a separator between neighbours. -/
def separated (separator : List Piece) (items : List (List Piece)) : List Piece :=
  separator.intercalate items

end Piece

namespace TypeExpr

mutual

/-- A type as it is written, without blanks. -/
def pieces : TypeExpr → List Piece
  | named name _ => [.name name]
  | array base _ => .mark .lbracket :: (base.pieces ++ [.mark .rbracket])
  | optional base _ => base.pieces ++ [.mark .question]
  | function params result _ =>
    .mark .lparen :: (Piece.separated [.mark .comma] (piecesOfAll params) ++
      (.mark .rparen :: .mark .arrow :: result.pieces))

def piecesOfAll : List TypeExpr → List (List Piece)
  | [] => []
  | t :: rest => t.pieces :: piecesOfAll rest

end

def text (t : TypeExpr) : Text := Piece.render t.pieces

end TypeExpr

end PeakLang
