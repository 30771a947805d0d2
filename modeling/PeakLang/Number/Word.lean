import PeakLang.Number.Power
import PeakLang.Text

namespace PeakLang.Word

def least : Int := -(twoTo 63 : Nat)

/-- The bound that every integer is less than. -/
def bound : Int := (twoTo 63 : Nat)

/-- An integer, if it fits. -/
def ofInt? (n : Int) : Option Int64 :=
  if least ≤ n && n < bound then some (Int64.ofInt n) else none

/-- The sum. It is at least `a` just if `b` is not negative, unless it wrapped around. -/
def add? (a b : Int64) : Option Int64 :=
  if 0 ≤ b ↔ a ≤ a + b then some (a + b) else none

/-- The difference. It is at most `a` just if `b` is not negative, unless it wrapped around. -/
def sub? (a b : Int64) : Option Int64 :=
  if 0 ≤ b ↔ a - b ≤ a then some (a - b) else none

/-- The product. Dividing it by `b` gives `a` back, unless it wrapped around; the division wraps around
as well where the least integer is negated. -/
def mul? (a b : Int64) : Option Int64 :=
  if a == 0 || b == 0 then some 0
  else if (a == -1 && b == .minValue) || (b == -1 && a == .minValue) then none
  else if a * b / b == a then some (a * b)
  else none

/-- The quotient, cut to an integer; there is none by zero, and the opposite of the least integer does
not fit. -/
def div? (a b : Int64) : Option Int64 :=
  if b == 0 || (a == .minValue && b == -1) then none else some (a / b)

/-- The remainder, which has the sign of the dividend; there is none by zero. -/
def rem? (a b : Int64) : Option Int64 :=
  if b == 0 then none else some (a % b)

/-- `result · base ^ exponent` by squaring, given up as soon as a product does not fit. The number of
binary digits of the exponent bounds the rounds. -/
def powerFrom : (rounds : Nat) → (result base : Int64) → (exponent : Nat) → Option Int64
  | 0, result, _, _ => some result
  | rounds + 1, result, base, exponent =>
    if exponent == 0 then some result
    else do
      let result ← if exponent % 2 == 1 then mul? result base else some result
      if exponent / 2 == 0 then return result
      powerFrom rounds result (← mul? base base) (exponent / 2)

/-- The power; there is none to a negative exponent. -/
def pow? (a b : Int64) : Option Int64 :=
  if b < 0 then none else powerFrom 64 1 a b.toInt.toNat

def neg? (a : Int64) : Option Int64 := if a == .minValue then none else some (-a)

def text (a : Int64) : Text := Text.ofInt a.toInt

/-- The integer that decimal digits spell, if it fits. -/
def ofDigits? (digits : Text) : Option Int64 :=
  ofInt? digits.natural

/-- The integer that decimal digits spell after a minus sign or none, if it fits. -/
def parse? : Text → Option Int64
  | 45 :: digits => ofInt? (-(Text.natural digits : Int))
  | digits => ofDigits? digits

end PeakLang.Word
