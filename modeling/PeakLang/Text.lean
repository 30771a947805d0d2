namespace PeakLang

/-- A sequence of bytes, most often the UTF-8 form of a string. Source files, names, messages and
generated code may all hold bytes that are not well-formed, so no step may assume that they do. -/
abbrev Text := List UInt8

namespace Text

def ofString (s : String) : Text := s.toByteArray.data.toList

instance : Coe String Text := ⟨ofString⟩

/-- The string whose UTF-8 form a text is, if it is well-formed. -/
def toString? (t : Text) : Option String := String.fromUTF8? ⟨t.toArray⟩

/-- The texts in order, with a separator between neighbours. -/
def join (separator : Text) (parts : List Text) : Text := separator.intercalate parts

/-- A text written several times in a row. -/
def repeated (count : Nat) (t : Text) : Text := (List.replicate count t).flatten

/-- A natural number in decimal. -/
def ofNat (n : Nat) : Text := ofString (toString n)

/-- An integer in decimal, with a minus sign if it is negative. -/
def ofInt : Int → Text
  | .ofNat n => ofNat n
  | .negSucc n => "-" ++ ofNat (n + 1)

/-- ASCII digits. -/
def isDigit (b : UInt8) : Bool := 48 ≤ b && b ≤ 57

/-- The number that decimal digits spell. -/
def natural (digits : Text) : Nat := digits.foldl (fun n d => n * 10 + (d.toNat - 48)) 0

/-- The words `true` and `false`. -/
def ofBool (b : Bool) : Text := if b then "true" else "false"

def endsWith (t ending : Text) : Bool := ending.isSuffixOf t

def startsWith (t beginning : Text) : Bool := beginning.isPrefixOf t

/-- The strict order of texts by their bytes, a proper beginning coming first. -/
def precedes (a b : Text) : Bool := a < b

end Text

end PeakLang
