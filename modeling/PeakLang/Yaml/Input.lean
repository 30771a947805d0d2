import PeakLang.Yaml.Fault

namespace PeakLang.Yaml

/-- The line feed, which also stands for every break that folds. -/
def lineFeed : Char := Char.ofNat 10

def carriageReturn : Char := Char.ofNat 13

def tabulator : Char := Char.ofNat 9

/-- The break of the next line. -/
def nextLine : Char := Char.ofNat 0x85

/-- The mark of the byte order. -/
def orderMark : Char := Char.ofNat 0xFEFF

def singleQuote : Char := Char.ofNat 39

def doubleQuote : Char := Char.ofNat 34

def backslash : Char := Char.ofNat 92

def grave : Char := Char.ofNat 96

/-- Blanks within a line. -/
def isBlank (c : Char) : Bool := c == ' ' || c == tabulator

def isBreak (c : Char) : Bool :=
  c == lineFeed || c == carriageReturn || c == nextLine || c == Char.ofNat 0x2028
    || c == Char.ofNat 0x2029

/-- Whether a line break comes first. -/
def atBreak : List Char → Bool
  | c :: _ => isBreak c
  | [] => false

def atLineEnd : List Char → Bool
  | c :: _ => isBreak c
  | [] => true

/-- Whether nothing, a blank or a line break follows. -/
def endsWord : List Char → Bool
  | c :: _ => isBlank c || isBreak c
  | [] => true

def isNameChar (c : Char) : Bool := c.isAlphanum || c == '_' || c == '-'

/-- Characters that may stand in a document. -/
def isAllowed (c : Char) : Bool :=
  let n := c.toNat
  n == 9 || n == 10 || n == 13 || (32 ≤ n && n ≤ 126) || n == 0x85 || (0xA0 ≤ n && n ≤ 0xFFFD)
    || 0x10000 ≤ n

/-- The UTF-8 form of characters. -/
def utf8 (chars : List Char) : Text := chars.flatMap String.utf8EncodeChar

/-- What a text holds: its characters up to the first flaw, how many of them have come in after each
portion before that flaw, and the flaw. -/
structure Input where
  chars : List Char
  portions : List Nat
  flaw : Option Problem
deriving DecidableEq

namespace Input

/-- The number of bytes of a portion. -/
def portionSize : Nat := 512

/-- How many bytes follow the first byte of a character. -/
def tailLength? (lead : UInt8) : Option Nat :=
  if lead < 0x80 then some 0
  else if 0xC0 ≤ lead && lead < 0xE0 then some 1
  else if 0xE0 ≤ lead && lead < 0xF0 then some 2
  else if 0xF0 ≤ lead && lead < 0xF8 then some 3
  else none

/-- The bits that the first byte of a character gives, by the number of bytes that follow. -/
def leadBits (lead : UInt8) : (tail : Nat) → Nat
  | 0 => lead.toNat
  | 1 => lead.toNat % 32
  | 2 => lead.toNat % 16
  | _ => lead.toNat % 8

/-- The least number that needs as many bytes after the first. -/
def least : (tail : Nat) → Nat
  | 0 => 0
  | 1 => 0x80
  | 2 => 0x800
  | _ => 0x10000

/-- The character of a first byte and the bytes that follow it. -/
def character (lead : UInt8) (tail : Text) : Except Problem Char :=
  if !tail.all fun b => 0x80 ≤ b && b < 0xC0 then .error .badTailByte
  else
    let n := tail.foldl (fun n b => n * 64 + b.toNat % 64) (leadBits lead tail.length)
    if n < least tail.length then .error .longCharacter
    else if !n.isValidChar then .error .noCharacter
    else if !isAllowed (Char.ofNat n) then .error .controlCharacter
    else .ok (Char.ofNat n)

/-- The characters of a text after `skip` bytes that belong to a character already read. The text
starts at `offset`, the portion it starts in ends at `limit`, and `count` characters came before. A
character that crosses the end of a portion belongs to the next one. -/
def decode : (skip offset limit count : Nat) → Text → Input
  | _, _, _, count, [] => ⟨[], [count], none⟩
  | skip + 1, offset, limit, count, _ :: rest => decode skip (offset + 1) limit count rest
  | 0, offset, limit, count, lead :: rest =>
    match tailLength? lead with
    | none => ⟨[], if offset == limit then [count] else [], some .badLeadByte⟩
    | some tail =>
      let crosses := limit ≤ offset + tail
      let before := if crosses then [count] else []
      let bytes := rest.take tail
      if bytes.length < tail then ⟨[], before, some .cutCharacter⟩
      else match character lead bytes with
        | .error p => ⟨[], before, some p⟩
        | .ok c =>
          let more := decode tail (offset + 1) (if crosses then offset + portionSize else limit)
            (count + 1) rest
          ⟨c :: more.chars, before ++ more.portions, more.flaw⟩

/-- The characters of a text. An order mark at the start does not count as one. -/
def ofText : Text → Input
  | 0xEF :: 0xBB :: 0xBF :: rest => decode 0 3 portionSize 0 rest
  | t => decode 0 0 portionSize 0 t

end Input

end PeakLang.Yaml
