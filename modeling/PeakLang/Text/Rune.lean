import PeakLang.Text

namespace PeakLang

/-- One character of a text: a Unicode scalar value, or a byte outside every well-formed
sequence. -/
inductive Rune where
  | scalar (c : Char)
  | stray (b : UInt8)
deriving DecidableEq

namespace Rune

/-- What the rune is read as; a stray byte counts as the replacement character. -/
def char : Rune → Char
  | scalar c => c
  | stray _ => '�'

/-- The bytes that the rune stands for in its text. -/
def bytes : Rune → Text
  | scalar c => String.utf8EncodeChar c
  | stray b => [b]

/-- Bytes that continue a sequence. -/
def isTail (b : UInt8) : Bool := 0x80 ≤ b && b ≤ 0xBF

/-- The payload of a continuation byte. -/
def tailBits (b : UInt8) : Nat := b.toNat - 0x80

/-- The scalar value of the multi-byte sequence that `lead` starts, and the number of continuation
bytes it takes. Overlong forms, surrogates and values past U+10FFFF are refused. -/
def sequence? (lead : UInt8) (rest : Text) : Option (Char × Nat) :=
  if 0xC2 ≤ lead && lead ≤ 0xDF then
    match rest with
    | b :: _ =>
      if isTail b then some (Char.ofNat ((lead.toNat - 0xC0) * 64 + tailBits b), 1) else none
    | _ => none
  else if 0xE0 ≤ lead && lead ≤ 0xEF then
    match rest with
    | b :: c :: _ =>
      let n := (lead.toNat - 0xE0) * 4096 + tailBits b * 64 + tailBits c
      if isTail b && isTail c && 0x800 ≤ n && !(0xD800 ≤ n && n ≤ 0xDFFF) then
        some (Char.ofNat n, 2)
      else none
    | _ => none
  else if 0xF0 ≤ lead && lead ≤ 0xF4 then
    match rest with
    | b :: c :: d :: _ =>
      let n := (lead.toNat - 0xF0) * 262144 + tailBits b * 4096 + tailBits c * 64 + tailBits d
      if isTail b && isTail c && isTail d && 0x10000 ≤ n && n ≤ 0x10FFFF then
        some (Char.ofNat n, 3)
      else none
    | _ => none
  else none

/-- The rune that starts with `lead`, and the number of further bytes it takes. -/
def first (lead : UInt8) (rest : Text) : Rune × Nat :=
  if lead < 0x80 then (.scalar (Char.ofNat lead.toNat), 0)
  else match sequence? lead rest with
    | some (c, tail) => (.scalar c, tail)
    | none => (.stray lead, 0)

/-- The runes of a text after `skip` bytes that belong to a rune already read. -/
def decodeAfter : (skip : Nat) → Text → List Rune
  | _, [] => []
  | skip + 1, _ :: rest => decodeAfter skip rest
  | 0, lead :: rest =>
    let (rune, tail) := first lead rest
    rune :: decodeAfter tail rest

def decode (t : Text) : List Rune := decodeAfter 0 t

def encode (runes : List Rune) : Text := runes.flatMap bytes

end Rune

namespace Text

def runeCount (t : Text) : Nat := (Rune.decode t).length

end Text

end PeakLang
