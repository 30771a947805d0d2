import PeakLang.Text.Printable
import PeakLang.Text.Rune

namespace PeakLang.Quoted

/-- A number as `width` lower-case hexadecimal digits. -/
def hex : (width : Nat) → Nat → Text
  | 0, _ => []
  | width + 1, n => hex width (n / 16) ++ Text.ofString (String.singleton (Nat.digitChar (n % 16)))

/-- The escapes that are named by a letter. -/
def shortEscapes : List (Nat × Text) :=
  [(7, "\\a"), (8, "\\b"), (9, "\\t"), (10, "\\n"), (11, "\\v"), (12, "\\f"), (13, "\\r"),
   (34, "\\\""), (92, "\\\\")]

/-- One character between the quotes. -/
def escapeChar (c : Char) : Text :=
  let n := c.toNat
  match shortEscapes.lookup n with
  | some short => short
  | none =>
    if Printable.isPrintable c then String.utf8EncodeChar c
    else if n < 0x80 then "\\x" ++ hex 2 n
    else if n < 0x10000 then "\\u" ++ hex 4 n
    else "\\U" ++ hex 8 n

/-- One rune between the quotes; a stray byte is written by its value. -/
def escape : Rune → Text
  | .scalar c => escapeChar c
  | .stray b => "\\x" ++ hex 2 b.toNat

/-- Quoted text, as messages and listings show it: on one line, with everything that is not printable
written as an escape, so that two different texts never look alike. -/
def quoted (t : Text) : Text := "\"" ++ (Rune.decode t).flatMap escape ++ "\""

end PeakLang.Quoted
