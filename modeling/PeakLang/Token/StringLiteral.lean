import PeakLang.Text

namespace PeakLang.StringLiteral

def quote : UInt8 := 34

def backslash : UInt8 := 92

/-- The byte that the letter of an escape stands for. -/
def escaped? (letter : UInt8) : Option UInt8 :=
  if letter == 110 then some 10
  else if letter == 116 then some 9
  else if letter == backslash || letter == quote then some letter
  else none

/-- The text that an escaped body stands for. A backslash stands for itself at the very end and before
anything but `n`, `t`, a backslash or a quote. -/
def unescape : Text → Text
  | [] => []
  | [b] => [b]
  | b :: letter :: rest =>
    if b == backslash then
      match escaped? letter with
      | some value => value :: unescape rest
      | none => b :: letter :: unescape rest
    else b :: unescape (letter :: rest)

/-- The body of a literal: what stands between its quotes, or all of it if it is not between
quotes. -/
def body (literal : Text) : Text :=
  if 2 ≤ literal.length && literal.head? == some quote && literal.getLast? == some quote then
    (literal.drop 1).dropLast
  else literal

def decode (literal : Text) : Text := unescape (body literal)

/-- How a byte is written in a literal. -/
def escape (b : UInt8) : Text :=
  if b == backslash || b == quote then [backslash, b]
  else if b == 10 then [backslash, 110]
  else if b == 9 then [backslash, 116]
  else [b]

def encode (value : Text) : Text := quote :: (value.flatMap escape ++ [quote])

end PeakLang.StringLiteral
