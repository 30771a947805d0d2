import PeakLang.Text.Letter
import PeakLang.Text.Rune
import PeakLang.Token

namespace PeakLang

/-- Where reading stands: the runes ahead, and the position of the first. Past the end it stands on a
NUL that never ends, and a NUL in the source is read as the end. -/
structure Cursor where
  ahead : List Rune
  pos : Pos
deriving DecidableEq

namespace Cursor

def ofText (source : Text) : Cursor := ⟨Rune.decode source, .start⟩

/-- Past `count` runes of one line. Past the end the column still grows. -/
def skip (c : Cursor) (count : Nat) : Cursor := ⟨c.ahead.drop count, c.pos.rightBy count⟩

end Cursor

namespace Scan

/-- The character that ends the source. -/
def nul : Char := Char.ofNat 0

def quote : Char := Char.ofNat 34

def backslash : Char := Char.ofNat 92

/-- The first character ahead. -/
def head (runes : List Rune) : Char := (runes.head?.map Rune.char).getD nul

/-- Blanks between tokens. -/
def isBlank (c : Char) : Bool := c == ' ' || c == '\t' || c == '\n' || c == '\r'

def startsWord (c : Char) : Bool := c == '_' || Letter.isLetter c

/-- ASCII digits. -/
def isDigit (c : Char) : Bool := '0' ≤ c && c ≤ '9'

def inWord (c : Char) : Bool := startsWord c || isDigit c

/-- Past the blanks and the comments ahead. A comment runs from `//` to the end of its line; a NUL
ends it too, and is not skipped. -/
def skipGap : (inComment : Bool) → List Rune → Pos → Cursor
  | _, [], pos => ⟨[], pos⟩
  | true, r :: rest, pos =>
    if r.char == '\n' then skipGap false rest pos.nextLine
    else if r.char == nul then ⟨r :: rest, pos⟩
    else skipGap true rest pos.right
  | false, r :: rest, pos =>
    if r.char == '\n' then skipGap false rest pos.nextLine
    else if isBlank r.char then skipGap false rest pos.right
    else if r.char == '/' && head rest == '/' then skipGap true rest pos.right
    else ⟨r :: rest, pos⟩

/-- The runes of a number, digits first: a fraction needs a digit after its point, an exponent one
after its `e` and sign. The flag says whether there is a fraction or an exponent. -/
def number (runes : List Rune) : List Rune × Bool :=
  let whole := runes.takeWhile fun r => isDigit r.char
  let rest := runes.drop whole.length
  let fraction :=
    match rest with
    | point :: digits =>
      if point.char == '.' && isDigit (head digits) then
        point :: digits.takeWhile fun r => isDigit r.char
      else []
    | [] => []
  let rest := rest.drop fraction.length
  let exponent :=
    match rest with
    | mark :: more =>
      if mark.char == 'e' || mark.char == 'E' then
        match more with
        | sign :: digits =>
          if isDigit sign.char then mark :: more.takeWhile fun r => isDigit r.char
          else if (sign.char == '+' || sign.char == '-') && isDigit (head digits) then
            mark :: sign :: digits.takeWhile fun r => isDigit r.char
          else []
        | [] => []
      else []
    | [] => []
  (whole ++ fraction ++ exponent, !fraction.isEmpty || !exponent.isEmpty)

/-- How many runes after an opening quote belong to the string, its closing quote included; or, if
the line or the source ends first, how many stand before that end. A backslash takes the next
character with it. -/
def stringEnd : (escaped : Bool) → List Rune → Except Nat Nat
  | _, [] => .error 0
  | escaped, r :: rest =>
    if r.char == '\n' || r.char == nul then .error 0
    else if !escaped && r.char == quote then .ok 1
    else match stringEnd (!escaped && r.char == backslash) rest with
      | .ok count => .ok (count + 1)
      | .error count => .error (count + 1)

/-- The kind of an operator or delimiter that starts with `c`, when `next` follows, and whether it
takes both characters. -/
def mark? (c next : Char) : Option (TokenKind × Bool) :=
  match c with
  | '=' => some (if next == '=' then (.eq, true) else (.assign, false))
  | '!' => some (if next == '=' then (.neq, true) else (.illegal, false))
  | '<' => some (if next == '=' then (.leq, true) else (.lt, false))
  | '>' => some (if next == '=' then (.geq, true) else (.gt, false))
  | '+' => some (if next == '+' then (.increment, true) else (.plus, false))
  | '-' => some (
      if next == '-' then (.decrement, true)
      else if next == '>' then (.arrow, true)
      else (.minus, false))
  | '*' => some (if next == '*' then (.power, true) else (.star, false))
  | '/' => some (.slash, false)
  | '%' => some (.percent, false)
  | '(' => some (.lparen, false)
  | ')' => some (.rparen, false)
  | '\x7b' => some (.lbrace, false)
  | '\x7d' => some (.rbrace, false)
  | '[' => some (.lbracket, false)
  | ']' => some (.rbracket, false)
  | ',' => some (.comma, false)
  | ':' => some (.colon, false)
  | '.' => some (.dot, false)
  | '?' => some (.question, false)
  | _ => none

/-- The literal of an unclosed string. -/
def unterminated : Text := "unterminated string"

/-- The token at the cursor, which stands past every gap, and the cursor after it. The end of a line
that cuts a string off is read with the string. -/
def tokenAt (c : Cursor) : Token × Cursor :=
  let ch := head c.ahead
  let upTo (kind : TokenKind) (runes : List Rune) : Token × Cursor :=
    (⟨kind, Rune.encode runes, c.pos⟩, c.skip runes.length)
  match mark? ch (head (c.ahead.drop 1)) with
  | some (kind, true) => upTo kind (c.ahead.take 2)
  | some (kind, false) => upTo kind (c.ahead.take 1)
  | none =>
    if ch == nul then (⟨.eof, [], c.pos⟩, c.skip 1)
    else if ch == quote then
      match stringEnd false (c.ahead.drop 1) with
      | .ok count => upTo .stringLit (c.ahead.take (count + 1))
      | .error count => (⟨.illegal, unterminated, c.pos⟩, c.skip (count + 2))
    else if startsWord ch then
      let word := c.ahead.takeWhile fun r => inWord r.char
      upTo (TokenKind.ofWord (Rune.encode word)) word
    else if isDigit ch then
      let (runes, fractional) := number c.ahead
      upTo (if fractional then .floatLit else .intLit) runes
    else (⟨.illegal, String.utf8EncodeChar ch, c.pos⟩, c.skip 1)

def next (c : Cursor) : Token × Cursor :=
  tokenAt (skipGap false c.ahead c.pos)

/-- The next tokens, as many as asked for, also past the end. -/
def take : (count : Nat) → Cursor → List Token
  | 0, _ => []
  | count + 1, c =>
    let (token, rest) := next c
    token :: take count rest

/-- The tokens up to the first end of the source, of which there are at most `limit`. -/
def upToEnd : (limit : Nat) → Cursor → List Token
  | 0, _ => []
  | limit + 1, c =>
    let (token, rest) := next c
    if token.kind == .eof then [token] else token :: upToEnd limit rest

end Scan

namespace Token

/-- The tokens of a source text; the last one, and no other, is the end of the source. Every other
token takes at least one rune, which bounds their number. -/
def tokenize (source : Text) : List Token :=
  Scan.upToEnd ((Rune.decode source).length + 1) (.ofText source)

end Token

end PeakLang
