import PeakLang.Yaml.Input
import PeakLang.Yaml.Token

namespace PeakLang.Yaml

/-- A place where a key may have started, and the number of its first token. A key that starts where
the lines of its block start is required to be one. -/
structure PossibleKey where
  required : Bool
  number : Nat
  mark : Mark
deriving DecidableEq

/-- The state of reading tokens. A key is seen to be one only at the colon after it, so tokens wait in a
queue into which a key can still be put. -/
structure Lexer where
  /-- The number of all characters. -/
  size : Nat
  /-- The characters still to be read. -/
  ahead : List Char
  /-- How many characters will have come in after each portion still to come. -/
  portions : List Nat
  /-- What is wrong with the portion after those. -/
  flaw : Option Problem
  /-- How many characters have come in. -/
  loaded : Nat
  /-- Whether the characters at hand start with an order mark. -/
  marked : Bool
  /-- Where the next character stands. -/
  mark : Mark
  /-- Whether nothing but blanks has been read since a line break. -/
  onFreshLine : Bool
  /-- The columns of the open blocks, innermost first. -/
  indents : List Nat
  /-- Where keys may have started, for the open brackets from the innermost, and for the block. -/
  keys : List (Option PossibleKey)
  /-- Whether a key may start here. -/
  keyAllowed : Bool
  /-- How many tokens have left the queue. -/
  taken : Nat
  /-- The tokens that wait. -/
  queue : List PlacedToken
deriving DecidableEq

namespace Lexer

/-- The state before the first token. -/
def ofInput (input : Input) : Lexer where
  size := input.chars.length
  ahead := input.chars
  portions := input.portions
  flaw := input.flaw
  loaded := 0
  marked := false
  mark := .start
  onFreshLine := false
  indents := []
  keys := [none]
  keyAllowed := true
  taken := 0
  queue := []

/-- The column of the innermost block; outside of all blocks, one to the left of the first. -/
def indent (s : Lexer) : Int :=
  match s.indents with
  | [] => -1
  | column :: _ => column

/-- How many brackets are open. -/
def depth (s : Lexer) : Nat := s.keys.length - 1

def inBrackets (s : Lexer) : Bool :=
  match s.keys with
  | _ :: _ :: _ => true
  | _ => false

/-- The number of the next token to enter the queue. -/
def nextNumber (s : Lexer) : Nat := s.taken + s.queue.length

/-- Whether a line starts here with three times a character, as the lines do that divide documents. -/
def atMark (c : Char) (s : Lexer) : Bool :=
  s.mark.column == 0 && s.ahead.take 3 == [c, c, c] && endsWord (s.ahead.drop 3)

/-- Whether a line starts here that divides documents. -/
def atDocumentMark (s : Lexer) : Bool := s.atMark '-' || s.atMark '.'

end Lexer

/-- Steps of reading tokens. -/
abbrev Lex := StateT Lexer (Except Fault)

namespace Lex

/-- Stops with a problem of a part that starts at a mark. -/
def failFrom {α : Type} (start : Mark) (p : Problem) : Lex α := do
  throw ⟨p, start.line, (← get).mark.line⟩

/-- Stops with a problem of the place here. -/
def fail {α : Type} (p : Problem) : Lex α := do failFrom (← get).mark p

/-- How many steps are enough for a walk over the characters ahead. -/
def enough : Lex Nat := do
  let s ← get
  return s.size - s.mark.index + 1

/-- Lets portions come in until `target` characters are there. Past the last portion, the end counts
as one more character. -/
def load (target : Nat) (flaw : Option Problem) : (loaded : Nat) → List Nat →
    Except Fault (Nat × List Nat)
  | loaded, [] =>
    if target ≤ loaded then .ok (loaded, [])
    else match flaw with
      | some p => .error (.ofProblem p)
      | none => .ok (loaded + 1, [])
  | loaded, next :: rest =>
    if target ≤ loaded then .ok (loaded, next :: rest) else load target flaw next rest

/-- Makes sure that the next `count` characters have come in. -/
def need (count : Nat) : Lex Unit := do
  let s ← get
  if s.loaded < s.mark.index + count then
    let (loaded, portions) ← load (s.mark.index + count) s.flaw s.loaded s.portions
    set { s with loaded, portions, marked := s.ahead.head? == some orderMark }

/-- Goes past a character of the line. -/
def skip : Lex Unit := modify fun s =>
  { s with
    ahead := s.ahead.drop 1
    mark := { s.mark with index := s.mark.index + 1, column := s.mark.column + 1 }
    onFreshLine := s.onFreshLine && s.ahead.head?.any isBlank }

/-- Goes past characters of the line, as many as asked for. -/
def skipMany : (count : Nat) → Lex Unit
  | 0 => return ()
  | count + 1 => do
    skip
    skipMany count

/-- Goes past a line break, and gives what it stands for in a text: a line feed for every break but
the separators of lines and of paragraphs, which stand for themselves. -/
def readBreak : Lex Char := do
  let s ← get
  let width := if s.ahead.take 2 == [carriageReturn, lineFeed] then 2 else 1
  set { s with
    ahead := s.ahead.drop width
    mark := ⟨s.mark.index + width, s.mark.line + 1, 0⟩
    onFreshLine := true }
  match s.ahead with
  | c :: _ => return if c == carriageReturn || c == nextLine then lineFeed else c
  | [] => return lineFeed

/-- Goes past a line break. -/
def skipBreak : Lex Unit := do
  need 2
  discard readBreak

/-- Goes past characters of the line while they are of a class, and gives them. -/
def readWhile (accept : Char → Bool) : (fuel : Nat) → Lex (List Char)
  | 0 => return []
  | fuel + 1 => do
    need 1
    match (← get).ahead with
    | c :: _ =>
      if accept c then
        skip
        return c :: (← readWhile accept fuel)
      else return []
    | [] => return []

/-- Goes past blanks. -/
def skipBlanks : Lex Unit := do discard (readWhile isBlank (← enough))

/-- Goes to the end of the line. -/
def skipLine : Lex Unit := do discard (readWhile (fun c => !isBreak c) (← enough))

/-- Puts a token at the end of the queue. -/
def push (token : Token) (mark : Mark) : Lex Unit :=
  modify fun s => { s with queue := s.queue ++ [⟨token, mark⟩] }

/-- Puts a token into the queue where the token of a number stands. -/
def insert (number : Nat) (token : Token) (mark : Mark) : Lex Unit := modify fun s =>
  let before := number - s.taken
  { s with queue := s.queue.take before ++ ⟨token, mark⟩ :: s.queue.drop before }

/-- Reads a token of one character. -/
def pushMark (token : Token) : Lex Unit := do
  let start := (← get).mark
  skip
  push token start

/-- Says whether a key may start here. -/
def allowKey (allowed : Bool) : Lex Unit := modify fun s => { s with keyAllowed := allowed }

-- Keys. A key stands on one line, and its colon is at most 1024 characters away from its start.

/-- Whether what started at a place can still be a key. -/
def isLive (k : PossibleKey) : Lex Bool := do
  let here := (← get).mark
  if k.mark.line < here.line || k.mark.index + 1024 < here.index then
    if k.required then failFrom k.mark .keyWithoutValue else return false
  else return true

/-- Gives up the place where a key may have started. -/
def dropKey : Lex Unit := do
  match (← get).keys with
  | some k :: outer =>
    if k.required then failFrom k.mark .keyWithoutValue
    else modify fun s => { s with keys := none :: outer }
  | _ => return ()

/-- Notes that a key may start here, if it may. -/
def noteKey : Lex Unit := do
  let s ← get
  if s.keyAllowed then
    dropKey
    let k : PossibleKey := ⟨!s.inBrackets && s.indent == s.mark.column, s.nextNumber, s.mark⟩
    modify fun s => { s with keys := some k :: s.keys.drop 1 }

-- Indentation. Inside brackets it does not count.

/-- How deep blocks and brackets may be nested. -/
def maxDepth : Nat := 10000

/-- Starts a block in a column, if it lies to the right of the innermost block. -/
def indentTo (column : Nat) (number : Nat) (token : Token) (mark : Mark) : Lex Unit := do
  let s ← get
  if !s.inBrackets && s.indent < column then
    set { s with indents := column :: s.indents }
    if maxDepth < s.indents.length + 1 then fail .tooDeep
    insert number token mark

/-- Ends the blocks to the right of a column. -/
def dedentTo (column : Int) : Lex Unit := modify fun s =>
  if s.inBrackets then s
  else
    let closed := s.indents.takeWhile fun (n : Nat) => column < n
    { s with
      indents := s.indents.drop closed.length
      queue := s.queue ++ closed.map fun _ => ⟨.blockEnd, s.mark⟩ }

end Lex

end PeakLang.Yaml
