import PeakLang.Text

namespace PeakLang.Yaml

/-- A place in a text: how many characters stand before it, its line from one, and its column from
zero. -/
structure Mark where
  index : Nat
  line : Nat
  column : Nat
deriving DecidableEq

def Mark.start : Mark := ⟨0, 1, 0⟩

/-- How a scalar is written. A quoted scalar, or one in a block of its own, is a string; what a plain
one means depends on its text. -/
inductive Style where
  | plain | quoted
deriving DecidableEq

/-- The smallest parts of a document. Indentation shows as tokens of its own. -/
inductive Token where
  | streamEnd
  | version (major minor : Nat)
  | handle (name stem : Text)
  | documentStart
  | documentEnd
  | sequenceStart
  | mappingStart
  | blockEnd
  | openBracket
  | closeBracket
  | openBrace
  | closeBrace
  | comma
  | item
  | key
  | value
  | reference (name : Text)
  | anchor (name : Text)
  | tag (handle suffix : Text)
  | scalar (value : Text) (style : Style)
deriving DecidableEq

structure PlacedToken where
  token : Token
  mark : Mark
deriving DecidableEq

end PeakLang.Yaml
