import PeakLang.Number.Power

namespace PeakLang

/-- A floating-point number by its bits: a sign, eleven bits of exponent and 52 bits of fraction.
Numbers that differ in any bit are different values, so the two zeros and the two signs of a NaN are
told apart. -/
structure Binary64 where
  bits : UInt64
deriving DecidableEq

namespace Binary64

/-- Whether the sign bit is set. -/
def isNegative (x : Binary64) : Bool := twoTo 63 ≤ x.bits.toNat

/-- All bits but the sign. -/
def magnitude (x : Binary64) : Nat := x.bits.toNat % twoTo 63

def infiniteMagnitude : Nat := 2047 * twoTo 52

def isInfinite (x : Binary64) : Bool := x.magnitude == infiniteMagnitude

def isNaN (x : Binary64) : Bool := infiniteMagnitude < x.magnitude

def isFinite (x : Binary64) : Bool := x.magnitude < infiniteMagnitude

def significand (x : Binary64) : Nat :=
  if x.magnitude < twoTo 52 then x.magnitude else x.magnitude % twoTo 52 + twoTo 52

def exponent (x : Binary64) : Int := (max (x.magnitude / twoTo 52) 1 : Nat) - 1075

def ofMagnitude (negative : Bool) (magnitude : Nat) : Binary64 :=
  ⟨UInt64.ofNat ((if negative then twoTo 63 else 0) + magnitude)⟩

def infinity (negative : Bool) : Binary64 := ofMagnitude negative infiniteMagnitude

def nan : Binary64 := ofMagnitude false (infiniteMagnitude + twoTo 51)

def zero : Binary64 := ⟨0⟩

def one : Binary64 := ofMagnitude false (1023 * twoTo 52)

def toFloat (x : Binary64) : Float := Float.ofBits x.bits

def ofFloat (x : Float) : Binary64 := ⟨x.toBits⟩

def add (x y : Binary64) : Binary64 := ofFloat (x.toFloat + y.toFloat)

def sub (x y : Binary64) : Binary64 := ofFloat (x.toFloat - y.toFloat)

def mul (x y : Binary64) : Binary64 := ofFloat (x.toFloat * y.toFloat)

def div (x y : Binary64) : Binary64 := ofFloat (x.toFloat / y.toFloat)

/-- A number as a fraction and a power of two. -/
structure Scaled where
  fraction : Float
  exponent : Int

namespace Scaled

def ofFloat (x : Float) : Scaled := ⟨x.frExp.1, x.frExp.2⟩

def toFloat (a : Scaled) : Float := a.fraction.scaleB a.exponent

def mul (a b : Scaled) : Scaled := ⟨a.fraction * b.fraction, a.exponent + b.exponent⟩

def inverse (a : Scaled) : Scaled := ⟨1 / a.fraction, -a.exponent⟩

/-- The square, with a fraction of at least a half. -/
def square (a : Scaled) : Scaled :=
  let fraction := a.fraction * a.fraction
  if fraction < 0.5 then ⟨fraction + fraction, 2 * a.exponent - 1⟩ else ⟨fraction, 2 * a.exponent⟩

/-- A number times a power of a base. Each product is rounded; once the exponent of a square is far out
of range, so is the result. -/
def mulPow (a base : Scaled) (n : Nat) : Scaled :=
  if n = 0 then a
  else if 4096 < base.exponent.natAbs then ⟨a.fraction, a.exponent + base.exponent⟩
  else mulPow (if n % 2 = 1 then a.mul base else a) base.square (n / 2)

end Scaled

/-- The power of a finite base that is not zero. The exponent is split into a whole number, for which the
base is squared again and again, and a rest of at most a half. -/
def finitePow (x y : Float) : Float :=
  let whole := y.abs.floor
  let rest := y.abs - whole
  if rest != 0 && x < 0 then 0 / 0
  else if 9223372036854775808 ≤ whole then
    if x == -1 then 1 else if (x.abs < 1) == (0 < y) then 0 else 1 / 0
  else
    let (whole, rest) := if 0.5 < rest then (whole + 1, rest - 1) else (whole, rest)
    let root : Scaled := ⟨if rest == 0 then 1 else (rest * x.log).exp, 0⟩
    let result := root.mulPow (.ofFloat x) whole.toUInt64.toNat
    if y < 0 then result.inverse.toFloat else result.toFloat

/-- The power of a number. Square roots are taken as such, and powers with a zero or an infinity are
limits. -/
def pow (x y : Binary64) : Binary64 :=
  let x := x.toFloat
  let y := y.toFloat
  ofFloat <|
    if y == 0 || x == 1 then 1
    else if y == 1 then x
    else if x == 0 || !x.isFinite || !y.isFinite then Float.pow x y
    else if y == 0.5 then x.sqrt
    else if y == -0.5 then 1 / x.sqrt
    else finitePow x y

/-- The number with its sign bit turned round, a NaN included. -/
def neg (x : Binary64) : Binary64 := ofMagnitude (!x.isNegative) x.magnitude

/-- Whether a number is less than another; never so for a NaN. -/
def less (x y : Binary64) : Bool := x.toFloat < y.toFloat

/-- Whether two numbers have the same value; the zeros do, and a NaN does not. -/
def same (x y : Binary64) : Bool := x.toFloat == y.toFloat

end Binary64

end PeakLang
