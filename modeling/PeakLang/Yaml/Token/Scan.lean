import PeakLang.Yaml.Token.Label

namespace PeakLang.Yaml.Lex

/-- Ends everything that is open at the end of the text, which counts as a new line. -/
def streamEnd : Lex Unit := do
  modify fun s =>
    if s.mark.column == 0 then s
    else { s with mark := { s.mark with line := s.mark.line + 1, column := 0 } }
  dedentTo (-1)
  dropKey
  allowKey false
  push .streamEnd (← get).mark

/-- Reads a line that divides documents. -/
def documentMark (token : Token) : Lex Unit := do
  dedentTo (-1)
  dropKey
  allowKey false
  let start := (← get).mark
  skipMany 3
  push token start

/-- Reads an opening bracket, which may start a key. -/
def openBracket (token : Token) : Lex Unit := do
  noteKey
  modify fun s => { s with keys := none :: s.keys }
  if maxDepth < (← get).depth then fail .tooDeep
  allowKey true
  pushMark token

def closeBracket (token : Token) : Lex Unit := do
  dropKey
  modify fun s => if s.inBrackets then { s with keys := s.keys.drop 1 } else s
  allowKey false
  pushMark token

def comma : Lex Unit := do
  dropKey
  allowKey true
  pushMark .comma

/-- Reads the dash before an item. -/
def item : Lex Unit := do
  let s ← get
  if !s.inBrackets then
    if !s.keyAllowed then fail .nestedItem
    indentTo s.mark.column s.nextNumber .sequenceStart s.mark
  dropKey
  allowKey true
  pushMark .item

/-- Reads the question mark before a key. -/
def key : Lex Unit := do
  let s ← get
  if !s.inBrackets then
    if !s.keyAllowed then fail .nestedKey
    indentTo s.mark.column s.nextNumber .mappingStart s.mark
  dropKey
  allowKey !s.inBrackets
  pushMark .key

/-- The place where the key before a colon started, if there is one. -/
def currentKey : Lex (Option PossibleKey) := do
  match (← get).keys with
  | some k :: outer =>
    if ← isLive k then return some k
    else
      modify fun s => { s with keys := none :: outer }
      return none
  | _ => return none

/-- Reads the colon before a value. -/
def value : Lex Unit := do
  match ← currentKey with
  | some k =>
    insert k.number .key k.mark
    indentTo k.mark.column k.number .mappingStart k.mark
    modify fun s => { s with keys := none :: s.keys.drop 1 }
    allowKey false
  | none =>
    let s ← get
    if !s.inBrackets then
      if !s.keyAllowed then fail .nestedValue
      indentTo s.mark.column s.nextNumber .mappingStart s.mark
    allowKey !s.inBrackets
  pushMark .value

/-- Marks that no plain scalar starts with. -/
def isReserved (c : Char) : Bool :=
  ['-', '?', ':', ',', '[', ']', '\x7b', '\x7d', '#', '&', '*', '!', '|', '>', singleQuote,
   doubleQuote, '%', '@', grave].contains c

/-- Whether a plain scalar starts with a character that others follow. A dash starts one before a word,
and outside of brackets a question mark and a colon do, too. -/
def startsPlain (inBrackets : Bool) (c : Char) (rest : List Char) : Bool :=
  !(isBlank c || isBreak c || isReserved c) || c == '-' && !rest.head?.any isBlank
    || !inBrackets && (c == '?' || c == ':') && !endsWord rest

/-- Reads the token that starts with a character. -/
def tokenAt (c : Char) (rest : List Char) : Lex Unit := do
  let inBrackets := (← get).inBrackets
  if c == '[' then openBracket .openBracket
  else if c == '\x7b' then openBracket .openBrace
  else if c == ']' then closeBracket .closeBracket
  else if c == '\x7d' then closeBracket .closeBrace
  else if c == ',' then comma
  else if c == '-' && endsWord rest then item
  else if c == '?' && (inBrackets || endsWord rest) then key
  else if c == ':' && (inBrackets || endsWord rest) then value
  else if c == '*' then nameToken .reference
  else if c == '&' then nameToken .anchor
  else if c == '!' then tagToken
  else if c == '|' && !inBrackets then blockScalar true
  else if c == '>' && !inBrackets then blockScalar false
  else if c == singleQuote || c == doubleQuote then quotedScalar c
  else if startsPlain inBrackets c rest then plainScalar
  else fail .badStart

/-- Reads one more token, with the ends of blocks before it. A comment behind a token on its line
belongs to it; behind the dash of an item it belongs to the item. -/
def next : Lex Unit := do
  need 1
  skipGap (← enough)
  dedentTo (← get).mark.column
  need 4
  let s ← get
  match s.ahead with
  | [] => streamEnd
  | c :: rest =>
    if s.mark.column == 0 && c == '%' then directive
    else if s.atMark '-' then documentMark .documentStart
    else if s.atMark '.' then documentMark .documentEnd
    else
      tokenAt c rest
      if (← get).queue.getLast?.map PlacedToken.token != some .item then skipLineComment

/-- Whether the next token may still turn out to start a key. -/
def mayStartKey : Lex Bool := do
  let s ← get
  match s.keys.findSome? fun k => k.filter fun k => k.number == s.taken with
  | some k => isLive k
  | none => return false

/-- Reads tokens ahead until the next one is known for good. -/
def fill : (fuel : Nat) → Lex Unit
  | 0 => return ()
  | fuel + 1 => do
    if (← get).queue.length ≤ 2 then
      next
      fill fuel
    else if ← mayStartKey then
      next
      fill fuel

def peek : Lex PlacedToken := do
  fill ((← enough) + 4)
  let s ← get
  return s.queue.head?.getD ⟨.streamEnd, s.mark⟩

/-- Goes past the next token. -/
def advance : Lex Unit := modify fun s => { s with taken := s.taken + 1, queue := s.queue.drop 1 }

end PeakLang.Yaml.Lex
