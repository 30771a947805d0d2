import PeakLang.Yaml.Token.State

namespace PeakLang.Yaml.Lex

/-- How far the next comment is looked for. -/
def commentReach : Nat := 511

/-- How many characters stand before the next comment, with blanks and line breaks alone between. -/
def toComment? : (reach : Nat) → List Char → Option Nat
  | 0, _ => none
  | reach + 1, c :: rest =>
    if c == '#' then some 0
    else if isBlank c || c == lineFeed || c == carriageReturn then
      (toComment? reach rest).map (· + 1)
    else none
  | _, [] => none

/-- Goes past blanks and line breaks up to a character. -/
def skipTo (index : Nat) : (fuel : Nat) → Lex Unit
  | 0 => return ()
  | fuel + 1 => do
    let s ← get
    if s.mark.index < index then
      if atBreak s.ahead then skipBreak else skip
      need 1
      skipTo index fuel

/-- Goes to the end of a comment, and of the comments on the lines after it. Blanks before those do
not count, tabulators neither. -/
def skipComments : (fuel : Nat) → Lex Unit
  | 0 => return ()
  | fuel + 1 => do
    skipLine
    let s ← get
    match s.ahead with
    | c :: rest =>
      if c == lineFeed || c == carriageReturn then
        match toComment? commentReach rest with
        | some between =>
          skipTo (s.mark.index + between + 1) (between + 2)
          skipComments fuel
        | none => return ()
    | [] => return ()

/-- Goes to the end of the line, if nothing but a comment follows on it. -/
def skipLineComment : Lex Unit := do
  let s ← get
  if !s.onFreshLine then
    let blanks := (s.ahead.takeWhile isBlank).length
    if blanks ≤ commentReach && s.ahead[blanks]? == some '#' then skipLine

/-- Goes to the next token. A new line may start a key, unless brackets are open. -/
def skipGap : (fuel : Nat) → Lex Unit
  | 0 => return ()
  | fuel + 1 => do
    need 1
    let s ← get
    if s.mark.column == 0 && s.marked then skip
    let tabs := s.inBrackets || !s.keyAllowed
    discard (readWhile (fun c => c == ' ' || tabs && c == tabulator) (← enough))
    if (← get).ahead.head? == some '#' then skipComments (← enough)
    if atBreak (← get).ahead then
      skipBreak
      if !s.inBrackets then allowKey true
      skipGap fuel

end PeakLang.Yaml.Lex
