import PeakLang.Diagnostic
import PeakLang.Text.Quoted
import PeakLang.Text.Rune
import PeakLang.Token.Scan

namespace PeakLang.Tree.Parser

/-- What the grammar wants where it does not find it. -/
inductive Want where
  | token (kind : TokenKind)
  | type
  | expression
  | member
  | statement
deriving DecidableEq

namespace Want

/-- How a message names what is wanted. -/
def text : Want → Text
  | token kind => kind.name
  | type => "type"
  | expression => "expression"
  | member => "field or method"
  | statement => "'=', '++', '--' or a call"

end Want

/-- What can be wrong with a source. -/
inductive Fault where
  | unexpected (want : Want) (got : TokenKind)
  | illegal (literal : Text)
  | lateField (field cls : Text)
  | chainedComparison
deriving DecidableEq

namespace Fault

/-- The message of a fault. An illegal token of more than one character is its own message. -/
def message : Fault → Text
  | unexpected want got => "expected " ++ want.text ++ ", got " ++ got.name
  | illegal literal =>
    if 1 < literal.runeCount then literal else "illegal character " ++ Quoted.quoted literal
  | lateField field cls =>
    "field " ++ field ++ " must be declared before the methods of " ++ cls
  | chainedComparison => "comparison operators cannot be chained"

end Fault

/-- What a parser holds: the tokens ahead, the end of the source that follows them, and the faults found
so far. A parser goes on after a fault. -/
structure State where
  ahead : List Token
  last : Token
  faults : List (Fault × Pos)
deriving DecidableEq

namespace State

/-- The token at hand: the first one ahead, or the end of the source. -/
def current (s : State) : Token := s.ahead.head?.getD s.last

/-- The state before a list of tokens and the end of the source that closes it. -/
def ofTokens (tokens : List Token) : State :=
  ⟨tokens.dropLast, tokens.getLast?.getD ⟨.eof, [], .start⟩, []⟩

end State

abbrev Parse := StateM State

def current : Parse Token := return (← get).current

def kind : Parse TokenKind := return (← current).kind

def at? (k : TokenKind) : Parse Bool := return (← kind) == k

/-- Takes the token at hand; the end of the source stays. -/
def advance : Parse Token :=
  modifyGet fun s => (s.current, { s with ahead := s.ahead.tail })

def fault (f : Fault) (pos : Pos) : Parse Unit :=
  modify fun s => { s with faults := s.faults ++ [(f, pos)] }

/-- Records that a token is not what is wanted. -/
def unexpected (token : Token) (want : Want) : Parse Unit :=
  fault (if token.kind == .illegal then .illegal token.literal else .unexpected want token.kind)
    token.pos

/-- What a parser comes to where its fuel is used up: a fault, and a tree at the token at hand. -/
@[irreducible] def exhausted {α : Type} (tree : Pos → α) : Parse α := do
  let token ← current
  unexpected token .expression
  return tree token.pos

/-- Takes a token of a kind. If the token at hand has another kind, that is a fault, and the token
stays. -/
def expect (k : TokenKind) : Parse Token := do
  let token ← current
  if token.kind == k then advance
  else
    unexpected token (.token k)
    return token

/-- Takes the token at hand if it has a kind, and says whether it did. -/
def accept (k : TokenKind) : Parse Bool := do
  if ← at? k then
    let _ ← advance
    return true
  else return false

/-- The number of faults so far. -/
def faultCount : Parse Nat := return (← get).faults.length

/-- Takes tokens until the one at hand has a property, or is the end of the source. -/
def skipUntil (stop : TokenKind → Bool) : Parse Unit :=
  modify fun s => { s with ahead := s.ahead.dropWhile fun t => !stop t.kind && t.kind != .eof }

/-- Whether a statement starts or a block ends at a token, so that parsing can go on there after a
fault. -/
def isBoundary : TokenKind → Bool
  | .kwLet | .kwConst | .kwItem | .kwOrder | .kwBrew | .kwBlend | .kwRistretto | .kwTamp
  | .kwServe | .kwRemake | .rbrace | .eof => true
  | _ => false

/-- Takes tokens up to the next boundary. -/
def synchronize : Parse Unit := skipUntil isBoundary

/-- Runs a parser on trial: if it succeeds without a fault its progress is kept, otherwise nothing
has happened. -/
def speculate {α : Type} (p : Parse (Option α)) : Parse (Option α) := fun s =>
  match p { s with faults := [] } with
  | (some a, after) =>
    if after.faults.isEmpty then (some a, { after with faults := s.faults }) else (none, s)
  | (none, _) => (none, s)

/-- The name that stands where none could be read. -/
def errorName : Text := "<error>"

end PeakLang.Tree.Parser
