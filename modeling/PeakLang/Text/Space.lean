import PeakLang.Text.CharSet
import PeakLang.Text.Rune

namespace PeakLang.Space

def table : CharSet := .ofTable
  ["9-D", "20", "85", "A0", "1680", "2000-200A", "2028-2029", "202F", "205F", "3000"]

def isSpace (c : Char) : Bool := table.contains c.toNat

/-- A text without the white space at its two ends. -/
def trimmed (t : Text) : Text :=
  let blank (r : Rune) : Bool := isSpace r.char
  let inner := ((Rune.decode t).dropWhile blank).reverse.dropWhile blank
  Rune.encode inner.reverse

end PeakLang.Space
