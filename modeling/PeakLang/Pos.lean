import PeakLang.Text

namespace PeakLang

/-- A line and a column, both counted from one in a source text. Columns count runes. -/
structure Pos where
  line : Int
  column : Int
deriving DecidableEq

namespace Pos

/-- Where a source text begins. -/
def start : Pos := ⟨1, 1⟩

def right (p : Pos) : Pos := { p with column := p.column + 1 }

def rightBy (p : Pos) (count : Nat) : Pos := { p with column := p.column + count }

def nextLine (p : Pos) : Pos := ⟨p.line + 1, 1⟩

/-- The order of positions in a source text: by line, then by column. -/
def precedes (p q : Pos) : Bool :=
  p.line < q.line || (p.line == q.line && p.column < q.column)

/-- How a message names a position. -/
def locator (p : Pos) : Text :=
  "Line " ++ Text.ofInt p.line ++ ", col " ++ Text.ofInt p.column ++ ": "

end Pos

end PeakLang
