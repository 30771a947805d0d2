import Mathlib.Algebra.Group.Nat.Defs
import Mathlib.Data.List.Basic
import Mathlib.Tactic.SplitIfs
import PeakLang.Proofs.Text.Decimal
import PeakLang.Proofs.Text.Rune

namespace PeakLang.Text

def number (c : Char) : Nat := c.val.toNat

/-- The UTF-16 code units of a character: one, or a pair of surrogates. -/
def charUnits (c : Char) : List UInt16 :=
  if number c < 0x10000 then [UInt16.ofNat (number c)]
  else
    [UInt16.ofNat (0xD800 + (number c - 0x10000) / 0x400),
      UInt16.ofNat (0xDC00 + (number c - 0x10000) % 0x400)]

/-- The UTF-16 code units of a text; a stray byte counts as the replacement character. -/
def units (t : Text) : List UInt16 := (Rune.decode t).flatMap fun r => charUnits r.char

section Codes

variable {α β : Type} [LT β] {code : α → List β} {rank : α → Nat}

/-- Whether a code goes by a rank: the code of an item of lower rank comes first, whatever follows. -/
structure GoesBy (code : α → List β) (rank : α → Nat) : Prop where
  nonempty : ∀ a, code a ≠ []
  distinct : ∀ {a b}, rank a = rank b → a = b
  lt : ∀ {a b}, rank a < rank b → ∀ u v, code a ++ u < code b ++ v

theorem append_lt_append_iff [Std.Irrefl fun x y : β => x < y] (p u v : List β) :
    p ++ u < p ++ v ↔ u < v := by
  induction p with
  | nil => rfl
  | cons x p ih =>
    rw [List.cons_append, List.cons_append, List.cons_lt_cons_iff, ih]
    constructor
    · rintro (hx | ⟨-, huv⟩)
      · exact absurd hx (Std.Irrefl.irrefl x)
      · exact huv
    · exact fun huv => .inr ⟨rfl, huv⟩

/-- Texts of one length that differ are in their order whatever follows. -/
theorem append_lt_append {x y : List β} (hlength : x.length = y.length) (h : x < y) (u v : List β) :
    x ++ u < y ++ v := by
  induction x generalizing y with
  | nil =>
    rw [List.eq_nil_of_length_eq_zero hlength.symm] at h
    exact absurd h (List.not_lt_nil [])
  | cons b x ih =>
    cases y with
    | nil => exact absurd h (List.not_lt_nil _)
    | cons c y =>
      rw [List.cons_lt_cons_iff] at h
      rw [List.cons_append, List.cons_append, List.cons_lt_cons_iff]
      rcases h with hbc | ⟨hbc, hxy⟩
      · exact .inl hbc
      · exact .inr ⟨hbc, ih (Nat.succ.inj hlength) hxy⟩

theorem append_lt_append_of_head {b c : β} (h : b < c) (x y u v : List β) :
    b :: x ++ u < c :: y ++ v :=
  List.cons_lt_cons_iff.mpr (.inl h)

namespace GoesBy

variable [Std.Asymm fun x y : β => x < y]

/-- A code that goes by a rank orders lists by the ranks of their items. -/
theorem flatMap_lt_iff (h : GoesBy code rank) (as bs : List α) :
    as.flatMap code < bs.flatMap code ↔ as.map rank < bs.map rank := by
  induction as generalizing bs with
  | nil =>
    cases bs with
    | nil => simp
    | cons b bs =>
      obtain ⟨x, tail, hcode⟩ := List.exists_cons_of_ne_nil (h.nonempty b)
      have hbytes : [] < (b :: bs).flatMap code := by
        rw [List.flatMap_cons, hcode]
        exact List.nil_lt_cons _ _
      exact iff_of_true hbytes (List.nil_lt_cons _ _)
  | cons a as ih =>
    cases bs with
    | nil => exact iff_of_false (List.not_lt_nil _) (List.not_lt_nil _)
    | cons b bs =>
      rw [List.flatMap_cons, List.flatMap_cons, List.map_cons, List.map_cons, List.cons_lt_cons_iff]
      rcases Nat.lt_trichotomy (rank a) (rank b) with hlt | heq | hgt
      · exact iff_of_true (h.lt hlt _ _) (.inl hlt)
      · cases h.distinct heq
        rw [append_lt_append_iff, ih]
        simp
      · have hnot : ¬ code a ++ as.flatMap code < code b ++ bs.flatMap code :=
          List.lt_asymm (h.lt hgt _ _)
        refine iff_of_false hnot ?_
        rintro (hlt | ⟨heq, -⟩) <;> omega

/-- Lists with the same code are the same. -/
theorem flatMap_inj (h : GoesBy code rank) {as bs : List α} :
    as.flatMap code = bs.flatMap code ↔ as = bs := by
  constructor
  · intro heq
    have hab : ¬ as.map rank < bs.map rank := by
      rw [← h.flatMap_lt_iff, heq]
      exact List.lt_irrefl _
    have hba : ¬ bs.map rank < as.map rank := by
      rw [← h.flatMap_lt_iff, heq]
      exact List.lt_irrefl _
    have hranks := List.le_antisymm (List.not_lt.mp hba) (List.not_lt.mp hab)
    exact List.map_injective_iff.mpr (fun _ _ => h.distinct) hranks
  · rintro rfl
    rfl

end GoesBy

end Codes

section Characters

/-- Characters that are one unit, which comes after all surrogates. -/
def isLate (c : Char) : Bool := 0xE000 ≤ number c && number c < 0x10000

/-- Characters that are pairs of surrogates. -/
def isPair (c : Char) : Bool := 0x10000 ≤ number c

/-- The place of a character in the order of units. -/
def unitRank (c : Char) : Nat := if isLate c then number c + 0x110000 else number c

theorem number_inj {c d : Char} (h : number c = number d) : c = d :=
  Char.ext (UInt32.toNat_inj.mp h)

theorem number_valid (c : Char) : number c < 0xD800 ∨ 0xDFFF < number c ∧ number c < 0x110000 :=
  c.valid

/-- A number in digits to the base 64: a first byte that `mark` is added to, and bytes that continue it. -/
def digits64 (mark : Nat) : (tail : Nat) → Nat → Text
  | 0, n => [UInt8.ofNat (n + mark)]
  | tail + 1, n => digits64 mark tail (n / 64) ++ [Rune.tailByte n]

theorem length_digits64 (mark tail n : Nat) : (digits64 mark tail n).length = tail + 1 := by
  induction tail generalizing n with
  | zero => rfl
  | succ tail ih => rw [digits64, List.length_append, ih, List.length_singleton]

theorem digits64_eq_cons (mark tail n : Nat) :
    ∃ bytes, digits64 mark tail n = UInt8.ofNat (n / 64 ^ tail + mark) :: bytes := by
  induction tail generalizing n with
  | zero => exact ⟨[], by rw [digits64, Nat.pow_zero, Nat.div_one]⟩
  | succ tail ih =>
    obtain ⟨bytes, hbytes⟩ := ih (n / 64)
    refine ⟨bytes ++ [Rune.tailByte n], ?_⟩
    rw [digits64, hbytes, Nat.div_div_eq_div_mul, Nat.pow_succ', List.cons_append]

theorem ofNat_lt_ofNat {m n : Nat} (h : m < n) (hn : n < 256) : UInt8.ofNat m < UInt8.ofNat n := by
  rw [UInt8.lt_iff_toNat_lt, UInt8.toNat_ofNat', UInt8.toNat_ofNat']
  omega

theorem digits64_lt {mark tail m n : Nat} (h : m < n) (hn : n / 64 ^ tail + mark < 256) :
    digits64 mark tail m < digits64 mark tail n := by
  induction tail generalizing m n with
  | zero =>
    rw [Nat.pow_zero, Nat.div_one] at hn
    exact List.cons_lt_cons_iff.mpr (.inl (ofNat_lt_ofNat (by omega) hn))
  | succ tail ih =>
    rw [Nat.pow_succ', ← Nat.div_div_eq_div_mul] at hn
    rw [digits64, digits64]
    by_cases hfront : m / 64 < n / 64
    · exact append_lt_append (by rw [length_digits64, length_digits64]) (ih hfront hn) _ _
    · -- The numbers differ in their last digits only.
      have hsame : m / 64 = n / 64 := by omega
      have hlast : Rune.tailByte m < Rune.tailByte n := by
        rw [UInt8.lt_iff_toNat_lt, Rune.toNat_tailByte, Rune.toNat_tailByte]
        omega
      rw [hsame]
      exact List.append_left_lt (List.cons_lt_cons_iff.mpr (.inl hlast))

/-- The number of bytes that continue the first byte of a character. -/
def tailLength (n : Nat) : Nat := if n ≤ 127 then 0 else if n ≤ 2047 then 1 else if n ≤ 65535 then 2 else 3

/-- What the first byte tells about the length. -/
def lengthMark : (tail : Nat) → Nat
  | 0 => 0
  | 1 => 192
  | 2 => 224
  | _ => 240

theorem utf8EncodeChar_eq_digits64 (c : Char) :
    String.utf8EncodeChar c =
      digits64 (lengthMark (tailLength (number c))) (tailLength (number c)) (number c) := by
  have hc := number_valid c
  unfold number at hc ⊢
  unfold String.utf8EncodeChar tailLength
  generalize c.val.toNat = n at hc ⊢
  dsimp only
  split_ifs with hone htwo hthree
  · rfl
  · rw [show n / 64 % 32 = n / 64 by omega]
    rfl
  · rw [show n / 4096 % 16 = n / 64 / 64 by omega]
    rfl
  · rw [show n / 262144 % 8 = n / 64 / 64 / 64 by omega, show n / 4096 = n / 64 / 64 by omega]
    rfl

/-- Of characters with as many bytes the one with the greater number has the greater digits; of others
the longer one has the greater first byte. -/
theorem utf8EncodeChar_append_lt {c d : Char} (h : number c < number d) (u v : Text) :
    String.utf8EncodeChar c ++ u < String.utf8EncodeChar d ++ v := by
  have hd := number_valid d
  rw [utf8EncodeChar_eq_digits64, utf8EncodeChar_eq_digits64]
  generalize number c = m at *
  generalize number d = n at *
  have hbound : n / 64 ^ tailLength n + lengthMark (tailLength n) < 256 := by
    unfold tailLength
    split_ifs <;> simp only [lengthMark] <;> omega
  by_cases hlength : tailLength m = tailLength n
  · rw [hlength]
    exact append_lt_append (by rw [length_digits64, length_digits64]) (digits64_lt h hbound) u v
  · obtain ⟨x, hx⟩ := digits64_eq_cons (lengthMark (tailLength m)) (tailLength m) m
    obtain ⟨y, hy⟩ := digits64_eq_cons (lengthMark (tailLength n)) (tailLength n) n
    rw [hx, hy]
    refine append_lt_append_of_head (ofNat_lt_ofNat ?_ hbound) x y u v
    unfold tailLength at hlength ⊢
    split_ifs at hlength ⊢ <;> simp only [lengthMark] <;> omega

/-- Bytes order strings by the numbers of their characters. -/
theorem utf8EncodeChar_goesBy : GoesBy String.utf8EncodeChar number where
  nonempty c := by
    simp only [String.utf8EncodeChar]
    split_ifs <;> exact List.cons_ne_nil _ _
  distinct := number_inj
  lt := utf8EncodeChar_append_lt

theorem unitRank_inj {c d : Char} (h : unitRank c = unitRank d) : c = d := by
  have hc := number_valid c
  have hd := number_valid d
  simp only [unitRank, isLate, Bool.and_eq_true, decide_eq_true_eq] at h
  apply number_inj
  split_ifs at h <;> omega

/-- Two single units are in the order of their characters, two pairs of surrogates in that of their
digits to the base 1024, and a pair starts with a unit that is less than late ones only. -/
theorem charUnits_append_lt {c d : Char} (h : unitRank c < unitRank d) (u v : List UInt16) :
    charUnits c ++ u < charUnits d ++ v := by
  have hc := number_valid c
  have hd := number_valid d
  simp only [unitRank, isLate, Bool.and_eq_true, decide_eq_true_eq] at h
  have hless : ∀ {m n : Nat}, m < n → n < 65536 → UInt16.ofNat m < UInt16.ofNat n := by
    intro m n hmn hn
    rw [UInt16.lt_iff_toNat_lt, UInt16.toNat_ofNat', UInt16.toNat_ofNat']
    omega
  unfold charUnits
  by_cases hpair : number c < 0x10000
  · rw [if_pos hpair]
    split_ifs
    iterate 2 exact append_lt_append_of_head (hless (by split_ifs at h <;> omega) (by omega)) _ _ _ _
  · rw [if_neg hpair]
    split_ifs with hsingle
    · exact append_lt_append_of_head (hless (by split_ifs at h <;> omega) (by omega)) _ _ _ _
    · have hnumber : number c < number d := by split_ifs at h <;> omega
      by_cases hfirst : (number c - 0x10000) / 0x400 < (number d - 0x10000) / 0x400
      · exact append_lt_append_of_head (hless (by omega) (by omega)) _ _ _ _
      · have hsame : (number c - 0x10000) / 0x400 = (number d - 0x10000) / 0x400 := by omega
        rw [hsame]
        refine List.cons_lt_cons_iff.mpr (.inr ⟨rfl, ?_⟩)
        exact append_lt_append_of_head (hless (by omega) (by omega)) _ _ _ _

/-- Units order strings by the ranks of their characters. -/
theorem charUnits_goesBy : GoesBy charUnits unitRank where
  nonempty c := by
    unfold charUnits
    split_ifs <;> exact List.cons_ne_nil _ _
  distinct := unitRank_inj
  lt := charUnits_append_lt

end Characters

section Strings

/-- Whether the first difference of two strings is between a late character and a pair of surrogates. -/
def crosses : List Char → List Char → Bool
  | c :: cs, d :: ds =>
    if c = d then crosses cs ds else (isLate c && isPair d) || (isPair c && isLate d)
  | _, _ => false

theorem crosses_comm (as bs : List Char) : crosses as bs = crosses bs as := by
  induction as generalizing bs with
  | nil => cases bs <;> rfl
  | cons c as ih =>
    cases bs with
    | nil => rfl
    | cons d bs =>
      by_cases hcd : c = d
      · rw [crosses, crosses, if_pos hcd, if_pos hcd.symm, ih]
      · rw [crosses, crosses, if_neg hcd, if_neg (Ne.symm hcd), Bool.or_comm, Bool.and_comm (isPair c),
          Bool.and_comm (isLate c)]

theorem crosses_self (as : List Char) : crosses as as = false := by
  induction as with
  | nil => rfl
  | cons c as ih => rw [crosses, if_pos rfl, ih]

theorem unitRank_lt_iff {c d : Char} (h : c ≠ d) :
    unitRank c < unitRank d ↔
      if (isLate c && isPair d) || (isPair c && isLate d) then number d < number c
      else number c < number d := by
  have hne : number c ≠ number d := fun heq => h (number_inj heq)
  have hc := number_valid c
  have hd := number_valid d
  simp only [unitRank, isLate, isPair, Bool.and_eq_true, Bool.or_eq_true, decide_eq_true_eq]
  split_ifs <;> omega

/-- The order of ranks is that of numbers, or the opposite one. -/
theorem map_unitRank_lt_iff (as bs : List Char) :
    as.map unitRank < bs.map unitRank ↔
      if crosses as bs then bs.map number < as.map number else as.map number < bs.map number := by
  induction as generalizing bs with
  | nil => cases bs <;> simp [crosses]
  | cons c as ih =>
    cases bs with
    | nil => simp [crosses]
    | cons d bs =>
      simp only [List.map_cons, List.cons_lt_cons_iff, crosses]
      by_cases hcd : c = d
      · subst hcd
        simpa using ih bs
      · have hrank : unitRank c ≠ unitRank d := fun heq => hcd (unitRank_inj heq)
        have hnumber : number c ≠ number d := fun heq => hcd (number_inj heq)
        simpa [hcd, hrank, hnumber, hnumber.symm] using unitRank_lt_iff hcd

theorem ofString_eq_flatMap (s : String) :
    ofString s = s.toList.flatMap String.utf8EncodeChar := by
  rw [← ofString_ofList, String.ofList_toList]

theorem units_ofString (s : String) : units (ofString s) = s.toList.flatMap charUnits := by
  have hencode : ofString s = Rune.encode (s.toList.map .scalar) := by
    rw [ofString_eq_flatMap, Rune.encode, List.flatMap_map]
    rfl
  rw [units, hencode, Rune.decode_encode_scalar, List.flatMap_map]
  rfl

theorem ofString_inj {a b : String} : ofString a = ofString b ↔ a = b := by
  rw [ofString_eq_flatMap, ofString_eq_flatMap, utf8EncodeChar_goesBy.flatMap_inj,
    String.toList_inj]

/-- Strings have the same units if they are the same. -/
theorem units_eq_iff (a b : String) :
    units (ofString a) = units (ofString b) ↔ ofString a = ofString b := by
  rw [units_ofString, units_ofString, charUnits_goesBy.flatMap_inj, String.toList_inj, ofString_inj]

/-- The order of strings by their units is that by their bytes, or the opposite one if their first
difference is between a late character and a pair of surrogates. -/
theorem units_lt_iff (a b : String) :
    units (ofString a) < units (ofString b) ↔
      if crosses a.toList b.toList then ofString b < ofString a else ofString a < ofString b := by
  rw [units_ofString, units_ofString, charUnits_goesBy.flatMap_lt_iff, map_unitRank_lt_iff,
    ofString_eq_flatMap, ofString_eq_flatMap, utf8EncodeChar_goesBy.flatMap_lt_iff,
    utf8EncodeChar_goesBy.flatMap_lt_iff]

end Strings

end PeakLang.Text
