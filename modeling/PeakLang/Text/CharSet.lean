import PeakLang.Text

namespace PeakLang

/-- A table of ranges `(first, last, step)`: the code points `first`, `first + step`, … up to
`last`. -/
abbrev CharSet := List (Nat × Nat × Nat)

namespace CharSet

/-- Whether one of the ranges holds a code point. -/
def contains (set : CharSet) (code : Nat) : Bool :=
  set.any fun (first, last, step) => first ≤ code && code ≤ last && (code - first) % step == 0

/-- The parts of a text between its separators. -/
def parts (separates : UInt8 → Bool) : Text → List Text
  | [] => [[]]
  | b :: rest =>
    match parts separates rest with
    | first :: others => if separates b then [] :: first :: others else (b :: first) :: others
    | [] => []

/-- The number that hexadecimal digits spell. -/
def number (digits : Text) : Nat :=
  digits.foldl (fun n d => 16 * n + (if d < 58 then d.toNat - 48 else d.toNat - 55)) 0

/-- A code point, or a range such as `C0-D6`, which may have a step as in `2EC-2EE/2`. -/
def range (word : Text) : Nat × Nat × Nat :=
  match parts (fun b => b == 45 || b == 47) word with
  | [first, last, step] => (number first, number last, number step)
  | [first, last] => (number first, number last, 1)
  | _ => (number word, number word, 1)

/-- The set that a table lists, in hexadecimal. -/
def ofTable (words : List String) : CharSet := words.map fun word => range (Text.ofString word)

end CharSet

end PeakLang
