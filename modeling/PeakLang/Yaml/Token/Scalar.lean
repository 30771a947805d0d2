import PeakLang.Yaml.Token.Gap

namespace PeakLang.Yaml

/-- What stands between two words of a scalar: the blanks after the first, and the line breaks. -/
structure WordGap where
  blanks : List Char
  breaks : List Char
deriving DecidableEq

namespace WordGap

/-- What a gap stands for in the text. Blanks beside a line break do not count. -/
def folded (g : WordGap) : List Char :=
  match g.breaks with
  | [] => g.blanks
  | first :: rest =>
    if first == lineFeed then
      match rest with
      | [] => [' ']
      | _ => rest
    else g.breaks

end WordGap

namespace Lex

/-- Reads the blanks and line breaks between two words; `broken` says that a line break came before. If
`indent` is given, a tabulator to the left of it is refused on every line but the first. -/
def readGap (start : Mark) (indent : Option Int) : (broken : Bool) → (fuel : Nat) → Lex WordGap
  | _, 0 => return ⟨[], []⟩
  | broken, fuel + 1 => do
    need 1
    let s ← get
    match s.ahead with
    | [] => return ⟨[], []⟩
    | c :: _ =>
      if isBlank c then
        if broken && c == tabulator && indent.any fun (n : Int) => s.mark.column < n then
          failFrom start .tabInText
        skip
        let gap ← readGap start indent broken fuel
        return if broken then gap else { gap with blanks := c :: gap.blanks }
      else if isBreak c then
        need 2
        let b ← readBreak
        let gap ← readGap start indent true fuel
        return { gap with breaks := b :: gap.breaks }
      else return ⟨[], []⟩

/-- The marks that end a plain scalar inside brackets. -/
def isFlowMark (c : Char) : Bool :=
  c == ',' || c == '?' || c == '[' || c == ']' || c == '\x7b' || c == '\x7d'

/-- Reads a word of a plain scalar: up to a blank, a colon that ends a word, and inside brackets each of
their marks. -/
def plainWord : (fuel : Nat) → Lex (List Char)
  | 0 => return []
  | fuel + 1 => do
    let s ← get
    match s.ahead with
    | [] => return []
    | c :: rest =>
      if isBlank c || isBreak c || c == ':' && endsWord rest || s.inBrackets && isFlowMark c then
        return []
      else
        skip
        need 2
        return c :: (← plainWord fuel)

/-- Reads the words of a plain scalar after what stands before them, and says whether the last line
break lies behind the last word. Outside of brackets the scalar ends with a line that is not indented
further than its block. -/
def plainWords (start : Mark) : (fuel : Nat) → (before : WordGap) → Lex (List Char × Bool)
  | 0, before => return ([], !before.breaks.isEmpty)
  | fuel + 1, before => do
    need 4
    let s ← get
    if s.atDocumentMark || s.ahead.head? == some '#' then return ([], !before.breaks.isEmpty)
    else
      let word ← plainWord (← enough)
      if word.isEmpty then return ([], !before.breaks.isEmpty)
      else
        let gap ← readGap start (some (s.indent + 1)) false (← enough)
        let s ← get
        let text := before.folded ++ word
        if gap == ⟨[], []⟩ then return (text, false)
        else if !s.inBrackets && s.mark.column < s.indent + 1 then
          return (text, !gap.breaks.isEmpty)
        else
          let (more, broken) ← plainWords start fuel gap
          return (text ++ more, broken)

/-- Reads a plain scalar. On a new line a key may start again. -/
def plainScalar : Lex Unit := do
  let start := (← get).mark
  noteKey
  allowKey false
  let (text, broken) ← plainWords start (← enough) ⟨[], []⟩
  push (.scalar (utf8 text) .plain) start
  if broken then allowKey true

/-- The escapes of one letter, by the letter, with the code points they stand for. -/
def escapes : List (Char × Nat) :=
  [('0', 0), ('a', 7), ('b', 8), ('t', 9), (tabulator, 9), ('n', 10), ('v', 11), ('f', 12), ('r', 13),
   ('e', 27), (' ', 32), (doubleQuote, 34), (singleQuote, 39), (backslash, 92), ('N', 0x85),
   ('_', 0xA0), ('L', 0x2028), ('P', 0x2029)]

/-- The numbers of hexadecimal digits after the escapes by number. -/
def escapeWidths : List (Char × Nat) := [('x', 2), ('u', 4), ('U', 8)]

/-- The value of a hexadecimal digit. -/
def hexDigit? (c : Char) : Option Nat :=
  if c.isDigit then some (c.toNat - 48)
  else if 'a' ≤ c && c ≤ 'f' then some (c.toNat - 87)
  else if 'A' ≤ c && c ≤ 'F' then some (c.toNat - 55)
  else none

/-- The number that hexadecimal digits spell. -/
def hexNumber? (digits : List Char) : Option Nat :=
  digits.foldlM (fun n c => do return n * 16 + (← hexDigit? c)) 0

/-- Reads an escape in a scalar that starts at a mark. -/
def escape (start : Mark) : Lex Char := do
  let mark := (← get).ahead[1]?
  match mark.bind fun c => escapes.lookup c with
  | some code =>
    skipMany 2
    return Char.ofNat code
  | none => match mark.bind fun c => escapeWidths.lookup c with
    | none => failFrom start .unknownEscape
    | some width =>
      skipMany 2
      need width
      let digits := (← get).ahead.take width
      match hexNumber? digits with
      | none => failFrom start .badEscapeDigit
      | some code =>
        if digits.length < width then failFrom start .badEscapeDigit
        else if !code.isValidChar then failFrom start .badEscapeCode
        else
          skipMany width
          return Char.ofNat code

/-- Reads a word of a quoted scalar, and says whether it ends with an escaped line break. Two single
quotes in a row stand for one between single quotes. -/
def quotedWord (start : Mark) (quote : Char) : (fuel : Nat) → Lex (List Char × Bool)
  | 0 => return ([], false)
  | fuel + 1 => do
    let next (c : Char) : Lex (List Char × Bool) := do
      need 2
      let (word, broken) ← quotedWord start quote fuel
      return (c :: word, broken)
    match (← get).ahead with
    | [] => return ([], false)
    | c :: rest =>
      if isBlank c || isBreak c then return ([], false)
      else if c == quote then
        if c == singleQuote && rest.head? == some quote then
          skipMany 2
          next quote
        else return ([], false)
      else if quote == doubleQuote && c == backslash then
        if atBreak rest then
          need 3
          skip
          discard readBreak
          return ([], true)
        else next (← escape start)
      else
        skip
        next c

/-- Reads the words of a quoted scalar up to its closing quote. Behind an escaped line break every line
break counts, and blanks do not. -/
def quotedWords (start : Mark) (quote : Char) : (fuel : Nat) → Lex (List Char)
  | 0 => failFrom start .openQuote
  | fuel + 1 => do
    need 4
    let s ← get
    if s.atDocumentMark then failFrom start .markInQuote
    else if s.ahead.isEmpty then failFrom start .openQuote
    else
      let (word, broken) ← quotedWord start quote (← enough)
      need 1
      if (← get).ahead.head? == some quote then return word
      else
        let gap ← readGap start none broken (← enough)
        let between := if broken then gap.breaks else gap.folded
        return word ++ between ++ (← quotedWords start quote fuel)

def quotedScalar (quote : Char) : Lex Unit := do
  let start := (← get).mark
  noteKey
  allowKey false
  skip
  let text ← quotedWords start quote (← enough)
  skip
  push (.scalar (utf8 text) .quoted) start

/-- What becomes of the line breaks at the end of a block: the last is kept, or none, or all. -/
inductive Chomping where
  | clip | strip | keep
deriving DecidableEq

/-- Reads how the end of a block is treated, if it is said. -/
def chomping : Lex (Option Chomping) := do
  match (← get).ahead with
  | '+' :: _ =>
    skip
    return some .keep
  | '-' :: _ =>
    skip
    return some .strip
  | _ => return none

/-- Reads how far a block is indented, if it is said. -/
def increment (start : Mark) : Lex (Option Nat) := do
  match (← get).ahead with
  | c :: _ =>
    if c == '0' then failFrom start .zeroIndent
    else if c.isDigit then
      skip
      return some (c.toNat - 48)
    else return none
  | [] => return none

/-- Reads the marks behind the one that starts a block, in either order. -/
def blockMarks (start : Mark) : Lex (Chomping × Option Nat) := do
  need 1
  match ← chomping with
  | some finish =>
    need 1
    return (finish, ← increment start)
  | none => match ← increment start with
    | some n =>
      need 1
      return ((← chomping).getD .clip, some n)
    | none => return (.clip, none)

/-- Reads the spaces of the lines of a block up to the next one with text on it. Gives the line breaks
on the way, and the widest column that was reached. -/
def blockBreaks (start : Mark) (indent : Option Nat) :
    (fuel : Nat) → Lex (List Char × Nat)
  | 0 => return ([], 0)
  | fuel + 1 => do
    let inside (column : Nat) : Bool := indent.all fun n => column < n
    let room ← match indent with
      | some n => do pure (n - (← get).mark.column)
      | none => enough
    discard (readWhile (· == ' ') room)
    let s ← get
    if inside s.mark.column && s.ahead.head? == some tabulator then failFrom start .tabInBlock
    if atBreak s.ahead then
      need 2
      let b ← readBreak
      let (more, width) ← blockBreaks start indent fuel
      return (b :: more, max s.mark.column width)
    else return ([], s.mark.column)

/-- Reads the lines of a block. `last` is the break of the line before, `breaks` are those after it,
and `indented` says whether that line starts with a blank. Gives the text and the breaks after it. -/
def blockLines (literal : Bool) (start : Mark) (indent : Nat) :
    (fuel : Nat) → (last breaks : List Char) → (indented : Bool) →
      Lex (List Char × List Char × List Char)
  | 0, last, breaks, _ => return ([], last, breaks)
  | fuel + 1, last, breaks, indented => do
    need 1
    let s ← get
    if s.mark.column == indent && !s.ahead.isEmpty then
      let blank := s.ahead.head?.any isBlank
      let between :=
        if !literal && !indented && !blank && last.head? == some lineFeed then
          if breaks.isEmpty then [' '] else []
        else last
      let line ← readWhile (fun c => !isBreak c) (← enough)
      need 2
      let next ← if atBreak (← get).ahead then do pure [← readBreak] else pure []
      let (more, _) ← blockBreaks start (some indent) (← enough)
      let (text, rest) ← blockLines literal start indent fuel next more blank
      return (between ++ breaks ++ line ++ text, rest)
    else return ([], last, breaks)

/-- Reads a scalar in a block of its own. A key may start behind it. -/
def blockScalar (literal : Bool) : Lex Unit := do
  let start := (← get).mark
  dropKey
  allowKey true
  skip
  let (finish, width) ← blockMarks start
  skipBlanks
  if (← get).ahead.head? == some '#' then skipLine
  if !atLineEnd (← get).ahead then failFrom start .textAfterIndicator
  if atBreak (← get).ahead then skipBreak
  let s ← get
  let given := width.map fun n => (max 0 s.indent).toNat + n
  let (breaks, widest) ← blockBreaks start given (← enough)
  let indent := given.getD (max (max widest (s.indent + 1).toNat) 1)
  let (text, last, rest) ← blockLines literal start indent (← enough) [] breaks false
  let kept := match finish with
    | .clip => last
    | .strip => []
    | .keep => last ++ rest
  push (.scalar (utf8 (text ++ kept)) .quoted) start

end Lex

end PeakLang.Yaml
