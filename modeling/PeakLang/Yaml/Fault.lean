import PeakLang.Text

namespace PeakLang.Yaml

/-- Why a document cannot be read. -/
inductive Problem where
  /- Bytes that are no characters, or no allowed ones. -/
  | badLeadByte
  | badTailByte
  | cutCharacter
  | longCharacter
  | noCharacter
  | controlCharacter
  /- Characters that make no token. -/
  | badStart
  | nestedKey
  | nestedValue
  | nestedItem
  | keyWithoutValue
  | openQuote
  | markInQuote
  | unknownEscape
  | badEscapeDigit
  | badEscapeCode
  | tabInText
  | tabInBlock
  | zeroIndent
  | textAfterIndicator
  | badName
  | unclosedTag
  | noSpaceAfterTag
  | noTagMark
  | noTagText
  | noTagOctet
  | badTagLead
  | badTagTail
  | noDirective
  | badDirective
  | unknownDirective
  | noVersion
  | noVersionPoint
  | longVersion
  | noSpaceAfterHandle
  | tooDeep
  /- Tokens that make no document. -/
  | noDocumentStart
  | repeatedVersion
  | otherVersion
  | repeatedHandle
  | unknownHandle
  | openSequence
  | openMapping
  | noItem
  | noKey
  | noNode
  /- Nodes that do not mean anything. -/
  | unknownAnchor (name : Text)
  | endlessAnchor (name : Text)
  | badMerge
  | badBinary
  | otherTag (found value expected : Text)
deriving DecidableEq

namespace Problem

def text : Problem → Text
  | badLeadByte => "invalid leading UTF-8 octet"
  | badTailByte => "invalid trailing UTF-8 octet"
  | cutCharacter => "incomplete UTF-8 octet sequence"
  | longCharacter => "invalid length of a UTF-8 sequence"
  | noCharacter => "invalid Unicode character"
  | controlCharacter => "control characters are not allowed"
  | badStart => "found character that cannot start any token"
  | nestedKey => "mapping keys are not allowed in this context"
  | nestedValue => "mapping values are not allowed in this context"
  | nestedItem => "block sequence entries are not allowed in this context"
  | keyWithoutValue => "could not find expected ':'"
  | openQuote => "found unexpected end of stream"
  | markInQuote => "found unexpected document indicator"
  | unknownEscape => "found unknown escape character"
  | badEscapeDigit => "did not find expected hexdecimal number"
  | badEscapeCode => "found invalid Unicode character escape code"
  | tabInText => "found a tab character that violates indentation"
  | tabInBlock => "found a tab character where an indentation space is expected"
  | zeroIndent => "found an indentation indicator equal to 0"
  | textAfterIndicator => "did not find expected comment or line break"
  | badName => "did not find expected alphabetic or numeric character"
  | unclosedTag => "did not find the expected '>'"
  | noSpaceAfterTag => "did not find expected whitespace or line break"
  | noTagMark => "did not find expected '!'"
  | noTagText => "did not find expected tag URI"
  | noTagOctet => "did not find URI escaped octet"
  | badTagLead => "found an incorrect leading UTF-8 octet"
  | badTagTail => "found an incorrect trailing UTF-8 octet"
  | noDirective => "could not find expected directive name"
  | badDirective => "found unexpected non-alphabetical character"
  | unknownDirective => "found unknown directive name"
  | noVersion => "did not find expected version number"
  | noVersionPoint => "did not find expected digit or '.' character"
  | longVersion => "found extremely long version number"
  | noSpaceAfterHandle => "did not find expected whitespace"
  | tooDeep => "exceeded max depth of 10000"
  | noDocumentStart => "did not find expected <document start>"
  | repeatedVersion => "found duplicate %YAML directive"
  | otherVersion => "found incompatible YAML document"
  | repeatedHandle => "found duplicate %TAG directive"
  | unknownHandle => "found undefined tag handle"
  | openSequence => "did not find expected ',' or ']'"
  | openMapping => "did not find expected ',' or '\x7d'"
  | noItem => "did not find expected '-' indicator"
  | noKey => "did not find expected key"
  | noNode => "did not find expected node content"
  | unknownAnchor name => "unknown anchor '" ++ name ++ "' referenced"
  | endlessAnchor name => "anchor '" ++ name ++ "' value contains itself"
  | badMerge => "map merge requires map or sequence of maps as the value"
  | badBinary => "!!binary value contains invalid base64 data"
  | otherTag found value expected =>
    "cannot decode " ++ found ++ " \x60" ++ value ++ "\x60 as a " ++ expected

/-- Whether a problem shows in how tokens follow each other. -/
def isGrammatical : Problem → Bool
  | noDocumentStart | repeatedVersion | otherVersion | repeatedHandle | unknownHandle
  | openSequence | openMapping | noItem | noKey | noNode => true
  | _ => false

end Problem

/-- A problem, the line where the part of the document starts that has it, and the line where it
shows. Lines are counted from one. -/
structure Fault where
  problem : Problem
  start : Nat
  line : Nat
deriving DecidableEq

namespace Fault

/-- A problem of the whole document. -/
def ofProblem (p : Problem) : Fault := ⟨p, 1, 1⟩

/-- The line that a message names: that of the start unless it is the first. -/
def shownLine (f : Fault) : Nat :=
  let line := if 1 < f.start then f.start else f.line
  if f.problem.isGrammatical then line - 1 else line

/-- Whether a message names a line. The first is not named. -/
def showsLine (f : Fault) : Bool := 1 < f.start || 1 < f.line

def message (f : Fault) : Text :=
  let place : Text := if f.showsLine then "line " ++ Text.ofNat f.shownLine ++ ": " else []
  "yaml: " ++ place ++ f.problem.text

end Fault

end PeakLang.Yaml
