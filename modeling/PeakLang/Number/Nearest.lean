import PeakLang.Number.Binary64
import PeakLang.Text

namespace PeakLang.Binary64

/-- The quotient rounded to the nearest integer, a tie to the even one. -/
def roundedQuotient (num den : Nat) : Nat :=
  let q := num / den
  let r := num % den
  if 2 * r < den then q
  else if den < 2 * r then q + 1
  else if q % 2 == 0 then q else q + 1

/-- `num / den / 2 ^ e` as a quotient of natural numbers. -/
def scaled (num den : Nat) (e : Int) : Nat × Nat :=
  match e with
  | .ofNat k => (num, den * twoTo k)
  | .negSucc k => (num * twoTo (k + 1), den)

/-- The exponent at which `num / den` has a significand of 53 bits, or the least exponent there is,
if that is larger. -/
def exponentFor (num den : Nat) : Int :=
  let e : Int := (num.log2 : Int) - den.log2 - 53
  let (a, b) := scaled num den e
  max (if twoTo 53 ≤ a / b then e + 1 else e) (-1074)

/-- The magnitude nearest to `num / den`; that of infinity or more if the quotient is too large. -/
def nearestMagnitude (num den : Nat) : Nat :=
  if num == 0 then 0
  else
    let e := exponentFor num den
    let (a, b) := scaled num den e
    (e + 1074).toNat * twoTo 52 + roundedQuotient a b

/-- The number nearest to a quotient with a sign, if it is finite. -/
def nearest? (negative : Bool) (num den : Nat) : Option Binary64 :=
  let m := nearestMagnitude num den
  if m < infiniteMagnitude then some (ofMagnitude negative m) else none

/-- `significand · 2 ^ e` in units of `2 ^ least`, for an `e` that is not less. -/
def inUnits (significand : Nat) (e least : Int) : Nat := significand * twoTo (e - least).toNat

/-- The remainder of a division whose quotient is cut to an integer; it has the sign of the
dividend. -/
def rem (x y : Binary64) : Binary64 :=
  if x.isNaN || y.isNaN || x.isInfinite || y.magnitude == 0 then nan
  else if y.isInfinite then x
  else
    let least := min x.exponent y.exponent
    let r := inUnits x.significand x.exponent least % inUnits y.significand y.exponent least
    let (num, den) := scaled r 1 (-least)
    ofMagnitude x.isNegative (nearestMagnitude num den)

/-- A decimal: digits before the point, digits after it, and an exponent of ten. -/
structure Decimal where
  whole : Text
  fraction : Text
  exponent : Int

namespace Decimal

/-- The exponent after its mark, zero if there is none. -/
def exponentOf : Text → Int
  | _ :: 45 :: digits => -(Text.natural digits : Int)
  | _ :: 43 :: digits => Text.natural digits
  | _ :: digits => Text.natural digits
  | [] => 0

/-- The parts of a decimal without a sign. -/
def ofText (t : Text) : Decimal :=
  let whole := t.takeWhile Text.isDigit
  let rest := t.drop whole.length
  match rest with
  | 46 :: after =>
    let fraction := after.takeWhile Text.isDigit
    ⟨whole, fraction, exponentOf (after.drop fraction.length)⟩
  | _ => ⟨whole, [], exponentOf rest⟩

/-- The number nearest to a decimal, if it is finite. An exponent far outside the range of numbers
decides the answer by itself. -/
def nearest? (d : Decimal) (negative : Bool) : Option Binary64 :=
  let digits := Text.natural (d.whole ++ d.fraction)
  let e := d.exponent - d.fraction.length
  if digits == 0 || e + (d.whole ++ d.fraction).length < -400 then
    some (ofMagnitude negative 0)
  else if 400 < e then none
  else match e with
    | .ofNat k => Binary64.nearest? negative (digits * tenTo k) 1
    | .negSucc k => Binary64.nearest? negative digits (tenTo (k + 1))

end Decimal

/-- The number that a decimal with or without a minus sign stands for, if it is finite. -/
def parse? (t : Text) : Option Binary64 :=
  match t with
  | 45 :: rest => (Decimal.ofText rest).nearest? true
  | _ => (Decimal.ofText t).nearest? false

end PeakLang.Binary64
