import PeakLang.Text

namespace PeakLang.Base64

def value? (b : UInt8) : Option Nat :=
  if 65 ≤ b && b ≤ 90 then some (b.toNat - 65)
  else if 97 ≤ b && b ≤ 122 then some (b.toNat - 71)
  else if Text.isDigit b then some (b.toNat + 4)
  else if b == 43 then some 62
  else if b == 47 then some 63
  else none

/-- The number that four characters spell. -/
def number? (group : Text) : Option Nat :=
  group.foldlM (fun n b => do return n * 64 + (← value? b)) 0

/-- The sign that fills the last group. -/
def filler : UInt8 := 61

/-- The bytes of groups of four characters. The last group may be filled. -/
def groups? : Text → Option Text
  | [] => some []
  | [a, b, c, d] => do
    if d == filler then
      if c == filler then
        let n ← number? [a, b]
        return [(n / 16).toUInt8]
      else
        let n ← number? [a, b, c]
        return [(n / 1024).toUInt8, (n / 4).toUInt8]
    else
      let n ← number? [a, b, c, d]
      return [(n / 65536).toUInt8, (n / 256).toUInt8, n.toUInt8]
  | a :: b :: c :: d :: rest => do
    let n ← number? [a, b, c, d]
    return (n / 65536).toUInt8 :: (n / 256).toUInt8 :: n.toUInt8 :: (← groups? rest)
  | _ => none

/-- The bytes that a text spells. Line breaks do not count. -/
def decode? (t : Text) : Option Text := groups? (t.filter fun b => b != 10 && b != 13)

end PeakLang.Base64
