import PeakLang.Number.Nearest
import PeakLang.Text

namespace PeakLang.Yaml

/-- The kinds of nodes. -/
inductive Tag where
  | null | bool | int | float | timestamp | str | seq | map | merge | binary
  | other (name : Text)
deriving DecidableEq

namespace Tag

def name : Tag → Text
  | null => "!!null"
  | bool => "!!bool"
  | int => "!!int"
  | float => "!!float"
  | timestamp => "!!timestamp"
  | str => "!!str"
  | seq => "!!seq"
  | map => "!!map"
  | merge => "!!merge"
  | binary => "!!binary"
  | other name => name

/-- The tags that have names of their own. -/
def known : List Tag := [null, bool, int, float, timestamp, str, seq, map, merge, binary]

/-- What the names of the known tags start with when they are written in full. -/
def stem : Text := "tag:yaml.org,2002:"

/-- The tag of a name, written in full or not. -/
def ofName (full : Text) : Tag :=
  let short : Text :=
    if Text.startsWith full stem then "!!" ++ full.drop stem.length else full
  (known.find? fun t => t.name == short).getD (other short)

end Tag

namespace Plain

/-- Words for nothing. -/
def nulls : List Text := ["", "~", "null", "Null", "NULL"]

/-- Words for truth. -/
def trues : List Text := ["true", "True", "TRUE"]

/-- Words for falsity. -/
def falses : List Text := ["false", "False", "FALSE"]

/-- The key under which mappings are merged into another. -/
def mergeKey : Text := "<<"

/-- Words for numbers that are not finite. -/
def specials : List Text :=
  [".nan", ".NaN", ".NAN", ".inf", ".Inf", ".INF", "+.inf", "+.Inf", "+.INF", "-.inf", "-.Inf",
   "-.INF"]

/-- A text without its sign, and whether the sign is a minus. -/
def unsigned : Text → Bool × Text
  | 45 :: rest => (true, rest)
  | 43 :: rest => (false, rest)
  | t => (false, t)

/-- The value of a digit, letters included. -/
def digit? (b : UInt8) : Option Nat :=
  if Text.isDigit b then some (b.toNat - 48)
  else if 97 ≤ b && b ≤ 102 then some (b.toNat - 87)
  else if 65 ≤ b && b ≤ 70 then some (b.toNat - 55)
  else none

/-- The number that digits of a base spell; there must be one at least. -/
def natural? (base : Nat) : Text → Option Nat
  | [] => none
  | digits => digits.foldlM (fun n b => do
      let d ← digit? b
      if d < base then return n * base + d else none) 0

/-- The number after its base mark: `0x`, `0o`, `0b`, a zero for octal, or none for decimal. -/
def based? : Text → Option Nat
  | [48] => some 0
  | 48 :: mark :: digits =>
    if mark == 120 || mark == 88 then natural? 16 digits
    else if mark == 111 || mark == 79 then natural? 8 digits
    else if mark == 98 || mark == 66 then natural? 2 digits
    else natural? 8 (mark :: digits)
  | t => natural? 10 t

/-- Whether a text is an integer of 64 bits, signed, or without a sign; `read?` reads what follows the
sign. -/
def isWord (read? : Text → Option Nat) (t : Text) : Bool :=
  let (negative, digits) := unsigned t
  match read? digits with
  | none => false
  | some n =>
    if negative then n ≤ twoTo 63
    else if digits.length == t.length then n < twoTo 64
    else n < twoTo 63

/-- Whether a text is an integer. The sign stands before the base mark, or after `0b` or `0o`. -/
def isInt (t : Text) : Bool :=
  isWord based? t || match t with
    | 48 :: 98 :: rest => isWord (natural? 2) rest
    | 48 :: 111 :: rest => isWord (natural? 8) rest
    | _ => false

/-- The bar that may stand between digits. -/
def bar : UInt8 := 95

def withoutBars (t : Text) : Text := t.filter fun b => b != bar

/-- Whether every bar stands between two digits; `previous` is the byte before. -/
def barsDivide : (previous : UInt8) → Text → Bool
  | previous, [] => previous != bar
  | previous, b :: rest =>
    (b != bar || Text.isDigit previous) && (previous != bar || Text.isDigit b) && barsDivide b rest

/-- Whether a text is nothing or an exponent. -/
def isExponent : Text → Bool
  | [] => true
  | mark :: rest =>
    let digits := (unsigned rest).2
    (mark == 101 || mark == 69) && !digits.isEmpty && digits.all Text.isDigit

/-- Whether a text without a sign has the form of a decimal. -/
def isDecimal (t : Text) : Bool :=
  let whole := t.takeWhile Text.isDigit
  match t.drop whole.length with
  | 46 :: after =>
    let fraction := after.takeWhile Text.isDigit
    (!whole.isEmpty || !fraction.isEmpty) && isExponent (after.drop fraction.length)
  | rest => !whole.isEmpty && isExponent rest

/-- Whether a text is a decimal in the range of numbers. -/
def isFloat (t : Text) : Bool :=
  let digits := (unsigned t).2
  isDecimal digits && (Binary64.parse? digits).isSome

/-- A number of one or two digits, and the rest. -/
def shortNumber? : Text → Option (Nat × Text)
  | a :: b :: rest =>
    if Text.isDigit a && Text.isDigit b then some (Text.natural [a, b], rest)
    else if Text.isDigit a then some (Text.natural [a], b :: rest)
    else none
  | [a] => if Text.isDigit a then some (Text.natural [a], []) else none
  | [] => none

/-- The rest after a byte. -/
def after? (b : UInt8) : Text → Option Text
  | c :: rest => if c == b then some rest else none
  | [] => none

def daysIn (year month : Nat) : Nat :=
  if month == 2 then
    if year % 4 == 0 && (year % 100 != 0 || year % 400 == 0) then 29 else 28
  else if month == 4 || month == 6 || month == 9 || month == 11 then 30
  else 31

/-- The rest after a day of the calendar. -/
def afterDate? (t : Text) : Option Text := do
  let year := t.takeWhile Text.isDigit
  guard (year.length == 4)
  let (month, t) ← shortNumber? (← after? 45 (t.drop 4))
  let (day, t) ← shortNumber? (← after? 45 t)
  guard (1 ≤ month && month ≤ 12 && 1 ≤ day && day ≤ daysIn (Text.natural year) month)
  return t

/-- The rest after a time of day, fractions of a second included. -/
def afterTime? (t : Text) : Option Text := do
  let (hour, t) ← shortNumber? t
  let (minute, t) ← shortNumber? (← after? 58 t)
  let (second, t) ← shortNumber? (← after? 58 t)
  guard (hour < 24 && minute < 60 && second < 60)
  match t with
  | mark :: digit :: rest =>
    if (mark == 46 || mark == 44) && Text.isDigit digit then return rest.dropWhile Text.isDigit
    else return t
  | _ => return t

/-- Whether a text is an offset from universal time: up to 24 hours and 60 minutes. -/
def isZone : Text → Bool
  | [90] => true
  | [sign, a, b, 58, c, d] =>
    (sign == 43 || sign == 45) && [a, b, c, d].all Text.isDigit
      && Text.natural [a, b] ≤ 24 && Text.natural [c, d] ≤ 60
  | _ => false

/-- Whether a text is a day, or a day and a time. After blanks the time has no offset, after a letter it
must have one. -/
def isTimestamp (t : Text) : Bool :=
  match afterDate? t with
  | none => false
  | some [] => true
  | some (mark :: rest) =>
    if mark == 32 then
      afterTime? (rest.dropWhile fun b => b == 32) == some []
    else (mark == 84 || mark == 116) && (afterTime? rest).any isZone

/-- What a plain scalar means, points in time included or not. Bars in numbers do not count; in a number
that starts with its point, they must stand between digits. -/
def tag (withTime : Bool) (t : Text) : Tag :=
  if nulls.contains t then .null
  else if trues.contains t || falses.contains t then .bool
  else if specials.contains t then .float
  else if t == mergeKey then .merge
  else match t with
    | [] => .null
    | b :: _ =>
      if b == 46 then if barsDivide b t && isFloat (withoutBars t) then .float else .str
      else if Text.isDigit b || b == 43 || b == 45 then
        let digits := withoutBars t
        if withTime && isTimestamp t then .timestamp
        else if isInt digits then .int
        else if isFloat digits then .float
        else .str
      else .str

end Plain

end PeakLang.Yaml
