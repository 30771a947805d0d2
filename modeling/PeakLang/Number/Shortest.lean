import PeakLang.Number.Nearest

namespace PeakLang.Binary64

/-- A quotient of natural numbers. -/
abbrev Ratio := Nat × Nat

namespace Ratio

/-- Whether a quotient is less than another. -/
def less (a b : Ratio) : Bool := a.1 * b.2 < b.1 * a.2

def ofScientific (n : Nat) : (e : Int) → Ratio
  | .ofNat k => (n * tenTo k, 1)
  | .negSucc k => (n, tenTo (k + 1))

/-- The quotient over `10 ^ e`, cut to an integer. -/
def floorOver (a : Ratio) (e : Int) : Nat :=
  let unit := ofScientific 1 e
  a.1 * unit.2 / (a.2 * unit.1)

/-- The exponent of the leading decimal digit of a positive quotient. The estimate by binary digits is
off by one at most. -/
def leadingExponent (a : Ratio) : Int :=
  let estimate := (((a.1.log2 : Int) - a.2.log2) * 30103).fdiv 100000
  if less a (ofScientific 1 estimate) then estimate - 1
  else if less a (ofScientific 1 (estimate + 1)) then estimate
  else estimate + 1

end Ratio

/-- A point near a finite number: `(significand + quarters / 4) · 2 ^ exponent`. -/
def nearby (x : Binary64) (quarters : Int) : Ratio :=
  scaled (4 * (x.significand : Int) + quarters).toNat 4 (-x.exponent)

/-- The least point that may round to a number. At a power of two the numbers below lie closer. -/
def lowerBound (x : Binary64) : Ratio :=
  x.nearby (if x.significand == twoTo 52 && -1074 < x.exponent then -1 else -2)

/-- The largest point that may round to a number. -/
def upperBound (x : Binary64) : Ratio := x.nearby 2

/-- Whether a point rounds to a number: it lies between the bounds, or on one of them if the
significand is even. -/
def readsBack (x : Binary64) (point : Ratio) : Bool :=
  if x.significand % 2 == 0 then
    !point.less x.lowerBound && !x.upperBound.less point
  else x.lowerBound.less point && point.less x.upperBound

/-- The multiple of `10 ^ e` that reads back as a number, the nearer one if two do. -/
def onGrid? (x : Binary64) (e : Int) : Option Nat :=
  let value := x.nearby 0
  let low := value.floorOver e
  let lowFits := x.readsBack (.ofScientific low e)
  let highFits := x.readsBack (.ofScientific (low + 1) e)
  if lowFits && highFits then
    let middle := Ratio.ofScientific (2 * low + 1) e
    let twice : Ratio := (2 * value.1, value.2)
    if twice.less middle then some low
    else if middle.less twice then some (low + 1)
    else some (if low % 2 == 0 then low else low + 1)
  else if lowFits then some low
  else if highFits then some (low + 1)
  else none

/-- The first grid, from coarse to fine, with a point that reads back. Seventeen digits are always
enough. -/
def firstGrid (x : Binary64) : (steps : Nat) → (e : Int) → Nat × Int
  | 0, e => ((x.nearby 0).floorOver e, e)
  | steps + 1, e =>
    match x.onGrid? e with
    | some n => (n, e)
    | none => firstGrid x steps (e - 1)

/-- The shortest digits of a finite number that is not zero, and the exponent of the first. -/
def shortestDigits (x : Binary64) : Text × Int :=
  let (n, e) := x.firstGrid 17 (x.nearby 0).leadingExponent
  let digits := Text.ofNat n
  ((digits.reverse.dropWhile fun d => d == 48).reverse, e + digits.length - 1)

/-- Digits with a point after the first. -/
def pointed : Text → Text
  | [] => []
  | [d] => [d]
  | d :: rest => d :: 46 :: rest

/-- An exponent after its mark, with its sign and two digits at least. -/
def exponentText (e : Int) : Text :=
  let digits := Text.ofNat e.natAbs
  (if e < 0 then "e-" else "e+") ++ Text.repeated (2 - digits.length) "0" ++ digits

/-- Digits whose first has an exponent, written without an exponent. -/
def positional (digits : Text) (e : Int) : Text :=
  match e with
  | .negSucc k => "0." ++ Text.repeated k "0" ++ digits
  | .ofNat k =>
    let whole := digits.take (k + 1) ++ Text.repeated (k + 1 - digits.length) "0"
    let fraction := digits.drop (k + 1)
    if fraction.isEmpty then whole else whole ++ "." ++ fraction

/-- The text of a magnitude: without an exponent from `10 ^ -4` up to `10 ^ 6`. -/
def magnitudeText (x : Binary64) : Text :=
  if x.magnitude == 0 then "0"
  else
    let (digits, e) := x.shortestDigits
    if -4 ≤ e && e < 6 then positional digits e else pointed digits ++ exponentText e

def text (x : Binary64) : Text :=
  if x.isNaN then "NaN"
  else if x.isInfinite then (if x.isNegative then "-Inf" else "+Inf")
  else (if x.isNegative then "-" else "") ++ x.magnitudeText

end PeakLang.Binary64
