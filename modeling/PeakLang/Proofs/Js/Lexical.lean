import PeakLang.Js.Render
import PeakLang.Proofs.Js.Reader
import PeakLang.Proofs.Text.Decimal
import PeakLang.Proofs.Text.Rune
import PeakLang.Token.Scan

namespace PeakLang.Js

section Words

/-- The one letter that JavaScript does not take in names: it counts as punctuation there. -/
def verticalTilde : Char := 'ⸯ'

def startsName (c : Char) : Bool :=
  c == '$' || c == '_' || (Letter.isLetter c && c != verticalTilde)

def inName (c : Char) : Bool := startsName c || Scan.isDigit c

def spellsName : List Rune → Bool
  | .scalar c :: rest => startsName c && rest.all fun
    | .scalar c => inName c
    | .stray _ => false
  | _ => false

/-- Words that are no names. -/
def reserved : List Text :=
  List.map Text.ofString [
   "arguments", "async", "await", "break", "case", "catch", "class", "const", "continue", "debugger",
   "default", "delete", "do", "else", "enum", "eval", "export", "extends", "finally", "for",
   "function", "if", "implements", "import", "in", "instanceof", "interface", "let", "null",
   "package", "private", "protected", "public", "return", "static", "super", "switch", "throw",
   "try", "typeof", "var", "void", "while", "with", "yield"]

/-- Whether a word is an integer in decimal. -/
def isInteger : Text → Bool
  | [] => false
  | b :: rest => (b :: rest).all Text.isDigit && (rest.isEmpty || b != 48)

def word? (word : Text) : Option Token :=
  if isInteger word then some (.number word.natural)
  else if word == "this" then some .this
  else if word == "new" then some .new
  else if word == "true" then some (.bool true)
  else if word == "false" then some (.bool false)
  else if !reserved.contains word && spellsName (Rune.decode word) then some (.name word)
  else none

/-- Bytes of words. -/
def isWordByte (b : UInt8) : Bool :=
  Text.isDigit b || (65 ≤ b && b ≤ 90) || (97 ≤ b && b ≤ 122) || b == 95 || b == 36 || 128 ≤ b

end Words

/-- The bytes that are tokens by themselves. -/
def delimiters : List (UInt8 × Token) :=
  [(40, .lparen), (41, .rparen), (91, .lbracket), (93, .rbracket), (44, .comma)]

/-- The tokens that are spelled with other signs. -/
def marks : List (Text × Token) :=
  [("||", .op .or), ("&&", .op .and), ("===", .op .eq), ("!==", .op .ne), ("<", .op .lt),
   (">", .op .gt), ("<=", .op .le), (">=", .op .ge), ("+", .op .add), ("-", .op .sub),
   ("*", .op .mul), ("/", .op .div), ("%", .op .rem), ("**", .op .pow), ("!", .not), (".", .dot),
   ("...", .spread), ("?", .question), (":", .colon), ("=>", .arrow)]

def markBytes : Text := "!%&*+-./:<=>?|"

def isMarkByte (b : UInt8) : Bool := markBytes.contains b

/-- The byte that a backslash and another byte stand for. -/
def unescaped? (b : UInt8) : Option UInt8 :=
  if b == 92 then some 92
  else if b == 34 then some 34
  else if b == 110 then some 10
  else if b == 114 then some 13
  else if b == 116 then some 9
  else none

/-- What a string stands for, up to its closing quote, and what follows it. The flag says whether a
backslash was just read. -/
def quoted? : (escaped : Bool) → Text → Option (Text × Text)
  | _, [] => none
  | true, b :: rest => do
    let c ← unescaped? b
    let (value, rest) ← quoted? false rest
    return (c :: value, rest)
  | false, b :: rest =>
    if b == 34 then some ([], rest)
    else if b == 10 || b == 13 then none
    else if b == 92 then quoted? true rest
    else do
      let (value, rest) ← quoted? false rest
      return (b :: value, rest)

/-- The first token of a text and what follows it. A point right after an integer would be part of the
number, and so would a digit right after a point. -/
def next? : Text → Option (Token × Text)
  | [] => none
  | b :: rest =>
    if b == 34 then (quoted? false rest).map fun (value, rest) => (.string value, rest)
    else if isWordByte b then
      let word := (b :: rest).takeWhile isWordByte
      let rest := (b :: rest).dropWhile isWordByte
      if Text.isDigit b && rest.head? == some 46 then none
      else (word? word).map fun t => (t, rest)
    else if isMarkByte b then
      let mark := (b :: rest).takeWhile isMarkByte
      let rest := (b :: rest).dropWhile isMarkByte
      if mark == [46] && rest.head?.any Text.isDigit then none
      else (marks.lookup mark).map fun t => (t, rest)
    else (delimiters.lookup b).map fun t => (t, rest)

/-- Blanks between tokens. -/
def isBlank (b : UInt8) : Bool := b == 32 || b == 9 || b == 10 || b == 13

/-- The tokens of a text. -/
inductive Lexes : Text → List Token → Prop where
  | nil : Lexes [] []
  | blank {b : UInt8} {rest : Text} {ts : List Token} :
    isBlank b = true → Lexes rest ts → Lexes (b :: rest) ts
  | token {text rest : Text} {t : Token} {ts : List Token} :
    next? text = some (t, rest) → Lexes rest ts → Lexes text (t :: ts)

theorem next?_blank {b : UInt8} {rest : Text} (h : isBlank b = true) : next? (b :: rest) = none := by
  simp only [isBlank, Bool.or_eq_true, beq_iff_eq] at h
  obtain ((rfl | rfl) | rfl) | rfl := h <;> rfl

/-- A text has one list of tokens. -/
theorem Lexes.unique {text : Text} {ts us : List Token} (h : Lexes text ts) (h' : Lexes text us) :
    ts = us := by
  induction h generalizing us with
  | nil =>
    cases h' with
    | nil => rfl
    | token hnext => cases hnext
  | blank hblank _ ih =>
    cases h' with
    | blank _ hrest => exact ih hrest
    | token hnext =>
      rw [next?_blank hblank] at hnext
      cases hnext
  | token hnext _ ih =>
    cases h' with
    | nil => cases hnext
    | blank hblank =>
      rw [next?_blank hblank] at hnext
      cases hnext
    | token hnext' hrest =>
      rw [hnext] at hnext'
      cases hnext'
      rw [ih hrest]

section Spelling

variable {rest : Text} {t : Token} {ts : List Token}

theorem span_append {p : UInt8 → Bool} {text : Text} (htext : ∀ b ∈ text, p b = true)
    (hrest : ∀ b ∈ rest.head?, p b = false) :
    (text ++ rest).takeWhile p = text ∧ (text ++ rest).dropWhile p = rest := by
  rw [List.takeWhile_append_of_pos htext, List.dropWhile_append_of_pos htext]
  cases rest with
  | nil => exact ⟨List.append_nil text, rfl⟩
  | cons b rest =>
    have hb := Bool.eq_false_iff.mp (hrest b rfl)
    rw [List.takeWhile_cons_of_neg hb, List.dropWhile_cons_of_neg hb]
    exact ⟨List.append_nil text, rfl⟩

variable {b : UInt8}

theorem isWordByte_ne {c : UInt8} (h : isWordByte b = true) (hc : isWordByte c = false) :
    b ≠ c := by
  rintro rfl
  rw [h] at hc
  cases hc

/-- A word is a token before a byte that is in no word. -/
theorem Lexes.word {tail : Text} (hbytes : ∀ c ∈ b :: tail, isWordByte c = true)
    (hword : word? (b :: tail) = some t) (hrest : ∀ c ∈ rest.head?, isWordByte c = false)
    (hpoint : Text.isDigit b = true → rest.head? ≠ some 46) (h : Lexes rest ts) :
    Lexes (b :: tail ++ rest) (t :: ts) := by
  refine .token ?_ h
  obtain ⟨htake, hdrop⟩ := span_append hbytes hrest
  have hb := hbytes b List.mem_cons_self
  have hquote : (b == 34) = false := beq_eq_false_iff_ne.mpr (isWordByte_ne hb rfl)
  have hwhole : (Text.isDigit b && rest.head? == some 46) = false := by
    by_cases hdigit : Text.isDigit b = true
    · rw [hdigit, Bool.true_and]
      exact beq_eq_false_iff_ne.mpr (hpoint hdigit)
    · rw [Bool.eq_false_iff.mpr hdigit, Bool.false_and]
  rw [List.cons_append] at htake hdrop ⊢
  rw [next?, hquote, hb, htake, hdrop]
  simp only [hwhole, hword]
  rfl

theorem isWordByte_of_isDigit (h : Text.isDigit b = true) : isWordByte b = true := by
  rw [isWordByte, h]
  rfl

/-- A number in decimal stands for the number. -/
theorem word?_ofNat (n : Nat) : word? (Text.ofNat n) = some (.number n) := by
  obtain ⟨b, tail, htext, hfirst⟩ := Text.ofNat_eq_cons n
  have hdigits : (b :: tail).all Text.isDigit = true := by
    rw [← htext, List.all_eq_true]
    exact fun c hc => Text.isDigit_of_mem_ofNat hc
  have hinteger : isInteger (Text.ofNat n) = true := by
    rw [htext, isInteger, hdigits, Bool.true_and, Bool.or_eq_true]
    by_cases hn : 0 < n
    · exact .inr (bne_iff_ne.mpr (hfirst hn))
    · obtain rfl : n = 0 := by omega
      obtain ⟨-, rfl⟩ := List.cons.inj ((show Text.ofNat 0 = [48] from rfl).symm.trans htext)
      exact .inl rfl
  rw [word?, hinteger, if_pos rfl, Text.natural_ofNat]

theorem startsName_digit : ∀ n < 58, 48 ≤ n → startsName (Char.ofNat n) = false := by decide

/-- A name does not start with a digit. -/
theorem not_isDigit_of_word? {tail : Text} (h : word? (b :: tail) = some (.name (b :: tail))) :
    Text.isDigit b = false := by
  refine Bool.eq_false_iff.mpr fun hdigit => ?_
  obtain ⟨hlow, hhigh⟩ := Text.isDigit_iff.mp hdigit
  have hascii : b < 0x80 := UInt8.lt_iff_toNat_lt.mpr (show b.toNat < 128 by omega)
  have hnot : spellsName (Rune.decode (b :: tail)) = false := by
    rw [Rune.decode_ascii_cons hascii, spellsName, startsName_digit _ (by omega) hlow]
    rfl
  rw [word?, hnot, Bool.and_false] at h
  split at h
  · cases h
  · iterate 4 (split at h; · cases h)
    cases h

/-- Whether a text is a name. -/
structure IsIdentifier (n : Text) : Prop where
  bytes : ∀ b ∈ n, isWordByte b = true
  word : word? n = some (.name n)

theorem IsIdentifier.eq_cons {n : Text} (h : IsIdentifier n) :
    ∃ b tail, n = b :: tail ∧ isWordByte b = true ∧ Text.isDigit b = false := by
  cases n with
  | nil => cases h.word
  | cons b tail =>
    exact ⟨b, tail, rfl, h.bytes b List.mem_cons_self, not_isDigit_of_word? h.word⟩

theorem marks_spelled : ∀ m ∈ marks, m.1 ≠ [] ∧ m.1.all isMarkByte = true ∧
    marks.lookup m.1 = some m.2 := by
  decide

theorem markBytes_spelled : ∀ b ∈ markBytes, isWordByte b = false ∧ b ≠ 34 := by
  have hall : markBytes.all (fun b => !isWordByte b && b != 34) = true := by decide
  intro b hb
  simpa using List.all_eq_true.mp hall b hb

theorem not_isMarkByte_of_isWordByte (h : isWordByte b = true) : isMarkByte b = false := by
  refine Bool.eq_false_iff.mpr fun hmark => ?_
  have hnot := (markBytes_spelled b (List.contains_iff_mem.mp hmark)).1
  exact isWordByte_ne h hnot rfl

/-- A mark is a token before a byte that is in none. -/
theorem Lexes.mark {mark : Text} (hmark : (mark, t) ∈ marks)
    (hrest : ∀ b ∈ rest.head?, isMarkByte b = false)
    (hpoint : mark = [46] → ∀ b ∈ rest.head?, Text.isDigit b = false) (h : Lexes rest ts) :
    Lexes (mark ++ rest) (t :: ts) := by
  refine .token ?_ h
  obtain ⟨hne, hall, hlookup⟩ := marks_spelled _ hmark
  have hbytes := List.all_eq_true.mp hall
  obtain ⟨htake, hdrop⟩ := span_append hbytes hrest
  obtain ⟨b, tail, rfl⟩ := List.exists_cons_of_ne_nil hne
  have hb := hbytes b List.mem_cons_self
  obtain ⟨hword, hquote⟩ := markBytes_spelled b (List.contains_iff_mem.mp hb)
  have hwhole : (b :: tail == [46] && rest.head?.any Text.isDigit) = false := by
    by_cases hdot : b :: tail = [46]
    · have hnone := hpoint hdot
      cases rest with
      | nil => simp
      | cons c rest => simp [hnone c rfl]
    · rw [beq_eq_false_iff_ne.mpr hdot, Bool.false_and]
  rw [List.cons_append] at htake hdrop ⊢
  rw [next?, beq_eq_false_iff_ne.mpr hquote, hword, hb, htake, hdrop]
  simp only [hwhole, hlookup]
  rfl

theorem delimiters_spelled : ∀ d ∈ delimiters, isWordByte d.1 = false ∧ isMarkByte d.1 = false ∧
    d.1 ≠ 34 ∧ delimiters.lookup d.1 = some d.2 := by
  decide

/-- A delimiter is a token whatever follows it. -/
theorem Lexes.delimiter (hb : (b, t) ∈ delimiters) (h : Lexes rest ts) :
    Lexes (b :: rest) (t :: ts) := by
  refine .token ?_ h
  obtain ⟨hword, hmark, hquote, hlookup⟩ := delimiters_spelled _ hb
  rw [next?, beq_eq_false_iff_ne.mpr hquote, hword, hmark, hlookup]
  rfl

theorem quoted?_backslash {c : UInt8} (h : unescaped? b = some c) (rest : Text) :
    quoted? false (92 :: b :: rest) =
      (quoted? false rest).map fun (value, rest) => (c :: value, rest) := by
  have hstep : quoted? false (92 :: b :: rest) = quoted? true (b :: rest) := rfl
  rw [hstep, quoted?, h]
  cases quoted? false rest <;> rfl

/-- Bytes that have a meaning between quotes. -/
def IsSpecial (b : UInt8) : Prop := b = 92 ∨ b = 34 ∨ b = 10 ∨ b = 13 ∨ b = 9

theorem escape_of_not_special (h : ¬ IsSpecial b) : escape b = [b] := by
  simp only [IsSpecial, not_or] at h
  simp [escape, h]

/-- A byte is read as it was written. -/
theorem quoted?_escape (b : UInt8) (rest : Text) :
    quoted? false (escape b ++ rest) =
      (quoted? false rest).map fun (value, rest) => (b :: value, rest) := by
  by_cases hspecial : IsSpecial b
  · obtain rfl | rfl | rfl | rfl | rfl := hspecial <;> exact quoted?_backslash rfl rest
  · rw [escape_of_not_special hspecial, List.singleton_append, quoted?]
    simp only [IsSpecial, not_or] at hspecial
    simp only [beq_iff_eq, hspecial, Bool.or_eq_true, or_self, if_false]
    cases quoted? false rest <;> rfl

theorem quoted?_flatMap_escape (value rest : Text) :
    quoted? false (value.flatMap escape ++ 34 :: rest) = some (value, rest) := by
  induction value with
  | nil => rfl
  | cons b value ih =>
    rw [List.flatMap_cons, List.append_assoc, quoted?_escape, ih]
    rfl

theorem stringLiteral_append (value rest : Text) :
    stringLiteral value ++ rest = 34 :: (value.flatMap escape ++ 34 :: rest) := by
  simp [stringLiteral, show Text.ofString "\"" = [34] from rfl]

/-- A string literal stands for the string, whatever follows it. -/
theorem next?_stringLiteral (value rest : Text) :
    next? (stringLiteral value ++ rest) = some (.string value, rest) := by
  rw [stringLiteral_append, next?, quoted?_flatMap_escape]
  rfl

theorem Lexes.string (value : Text) (h : Lexes rest ts) :
    Lexes (stringLiteral value ++ rest) (.string value :: ts) :=
  .token (next?_stringLiteral value rest) h

end Spelling

/-- Whether a text is an expression with a parse tree. -/
def Parses (text : Text) (x : Node) : Prop := ∃ ts, Lexes text ts ∧ Derives .expression ts x

/-- A text has at most one parse tree. -/
theorem Parses.unique {text : Text} {x y : Node} (hx : Parses text x) (hy : Parses text y) : x = y := by
  obtain ⟨ts, hts, hx⟩ := hx
  obtain ⟨us, hus, hy⟩ := hy
  rw [hts.unique hus] at hx
  exact hx.unique hy

end PeakLang.Js
