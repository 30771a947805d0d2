import PeakLang.Yaml.Token.Scalar

namespace PeakLang.Yaml.Lex

/-- Whether a name may end here. -/
def endsName : List Char → Bool
  | c :: rest => endsWord (c :: rest) || ['?', ':', ',', ']', '\x7d', '%', '@', grave].contains c
  | [] => true

/-- Reads an anchor, or a reference to one. Either may be a key. -/
def nameToken (token : Text → Token) : Lex Unit := do
  let start := (← get).mark
  noteKey
  allowKey false
  skip
  let name ← readWhile isNameChar (← enough)
  if name.isEmpty || !endsName (← get).ahead then failFrom start .badName
  push (token (utf8 name)) start

/-- Characters of a tag besides those of names. -/
def isTagMark (c : Char) : Bool :=
  [';', '/', '?', ':', '@', '&', '=', '+', '$', ',', '.', '%', '!', '~', '*', singleQuote, '(', ')',
   '[', ']'].contains c

/-- Reads the bytes of a character, each written with a per cent sign and two digits; `left` says how
many are still to come, if it is known. -/
def tagBytes (start : Mark) : (fuel : Nat) → (left : Option Nat) → Lex Text
  | 0, _ => return []
  | _, some 0 => return []
  | fuel + 1, left => do
    need 3
    match (← get).ahead with
    | '%' :: a :: b :: _ =>
      match hexNumber? [a, b] with
      | none => failFrom start .noTagOctet
      | some n =>
        let byte := n.toUInt8
        let left ← match left with
          | some count =>
            if 0x80 ≤ byte && byte < 0xC0 then pure (count - 1) else failFrom start .badTagTail
          | none => match Input.tailLength? byte with
            | some count => pure count
            | none => failFrom start .badTagLead
        skipMany 3
        return byte :: (← tagBytes start fuel (some left))
    | _ => failFrom start .noTagOctet

def tagText (start : Mark) : (fuel : Nat) → Lex Text
  | 0 => return []
  | fuel + 1 => do
    need 1
    match (← get).ahead with
    | c :: _ =>
      if c == '%' then
        let bytes ← tagBytes start 4 none
        return bytes ++ (← tagText start fuel)
      else if isNameChar c || isTagMark c then
        skip
        return String.utf8EncodeChar c ++ (← tagText start fuel)
      else return []
    | [] => return []

/-- Reads the text of a tag, of which there must be some. -/
def someTagText (start : Mark) : Lex Text := do
  let text ← tagText start (← enough)
  if text.isEmpty then failFrom start .noTagText else return text

/-- Reads a handle: a name between exclamation marks, or what may be the start of one. -/
def tagHandle (start : Mark) (inDirective : Bool) : Lex Text := do
  need 1
  if (← get).ahead.head? != some '!' then failFrom start .noTagMark
  skip
  let name ← readWhile isNameChar (← enough)
  if (← get).ahead.head? == some '!' then
    skip
    return "!" ++ utf8 name ++ "!"
  else if inDirective && !name.isEmpty then failFrom start .noTagMark
  else return "!" ++ utf8 name

/-- Reads a tag: in full between angle brackets, after a handle, or after an exclamation mark. -/
def tagToken : Lex Unit := do
  let start := (← get).mark
  noteKey
  allowKey false
  need 2
  let token : Token ←
    if (← get).ahead[1]? == some '<' then do
      skipMany 2
      let suffix ← someTagText start
      if (← get).ahead.head? != some '>' then failFrom start .unclosedTag
      skip
      pure (.tag [] suffix)
    else do
      let handle ← tagHandle start false
      if 1 < handle.length && handle.getLast? == some 33 then
        pure (.tag handle (← someTagText start))
      else
        let suffix := handle.drop 1 ++ (← tagText start (← enough))
        pure (if suffix.isEmpty then .tag [] "!" else .tag "!" suffix)
  need 1
  if !endsWord (← get).ahead then failFrom start .noSpaceAfterTag
  push token start

/-- Reads a part of a version, which has at most two digits. -/
def versionPart (start : Mark) : Lex Nat := do
  let digits ← readWhile Char.isDigit 3
  if 2 < digits.length then failFrom start .longVersion
  else if digits.isEmpty then failFrom start .noVersion
  else return Text.natural (utf8 digits)

/-- Reads the version after its directive. -/
def versionToken (start : Mark) : Lex Token := do
  skipBlanks
  let major ← versionPart start
  if (← get).ahead.head? != some '.' then failFrom start .noVersionPoint
  skip
  return .version major (← versionPart start)

/-- Reads the handle and what it stands for after their directive. -/
def handleToken (start : Mark) : Lex Token := do
  skipBlanks
  let name ← tagHandle start true
  if !(← get).ahead.head?.any isBlank then failFrom start .noSpaceAfterHandle
  skipBlanks
  let stem ← someTagText start
  if !endsWord (← get).ahead then failFrom start .noSpaceAfterTag
  return .handle name stem

/-- Reads a directive and the rest of its line. -/
def directive : Lex Unit := do
  dedentTo (-1)
  dropKey
  allowKey false
  let start := (← get).mark
  skip
  let name ← readWhile isNameChar (← enough)
  if name.isEmpty then failFrom start .noDirective
  if !endsWord (← get).ahead then failFrom start .badDirective
  let token ←
    if utf8 name == Text.ofString "YAML" then versionToken start
    else if utf8 name == Text.ofString "TAG" then handleToken start
    else failFrom start .unknownDirective
  skipBlanks
  if (← get).ahead.head? == some '#' then skipLine
  if !atLineEnd (← get).ahead then failFrom start .textAfterIndicator
  if atBreak (← get).ahead then skipBreak
  push token start

end PeakLang.Yaml.Lex
