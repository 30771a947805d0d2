import PeakLang.Text

namespace PeakLang.Text

/-- The ASCII digit of a number less than ten. -/
def digit (n : Nat) : UInt8 := UInt8.ofNat (n + 48)

theorem toNat_digit {n : Nat} (h : n < 10) : (digit n).toNat = n + 48 := by
  rw [digit, UInt8.toNat_ofNat']
  omega

theorem isDigit_iff {b : UInt8} : isDigit b = true ↔ 48 ≤ b.toNat ∧ b.toNat ≤ 57 := by
  simp [isDigit, UInt8.le_iff_toNat_le]

theorem isDigit_digit {n : Nat} (h : n < 10) : isDigit (digit n) = true := by
  rw [isDigit_iff, toNat_digit h]
  omega

theorem ofString_ofList (cs : List Char) :
    ofString (String.ofList cs) = cs.flatMap String.utf8EncodeChar := by
  rw [ofString, String.toByteArray_ofList, List.utf8Encode, List.data_toByteArray]

theorem utf8EncodeChar_digitChar : ∀ n < 10, String.utf8EncodeChar n.digitChar = [digit n] := by
  decide

/-- A number is written with the digits of its tenth part and its last digit. -/
theorem ofNat_eq (n : Nat) :
    ofNat n = if n < 10 then [digit n] else ofNat (n / 10) ++ [digit (n % 10)] := by
  have hlast := utf8EncodeChar_digitChar (n % 10) (Nat.mod_lt n (by decide))
  rw [ofNat, Nat.toString_eq_ofList_toDigits, ofString_ofList, Nat.toDigits_eq_if (by decide)]
  by_cases h : n < 10
  · rw [if_pos h, if_pos h, List.flatMap_singleton, utf8EncodeChar_digitChar n h]
  · rw [if_neg h, if_neg h, List.flatMap_append, List.flatMap_singleton, hlast, ofNat,
      Nat.toString_eq_ofList_toDigits, ofString_ofList]

theorem natural_concat (digits : Text) (b : UInt8) :
    natural (digits ++ [b]) = natural digits * 10 + (b.toNat - 48) := by
  simp [natural]

theorem isDigit_of_mem_ofNat {n : Nat} {b : UInt8} (h : b ∈ ofNat n) : isDigit b = true := by
  induction n using Nat.strongRecOn with
  | ind n ih =>
    rw [ofNat_eq] at h
    split at h
    case isTrue hn =>
      rw [List.mem_singleton.mp h]
      exact isDigit_digit hn
    case isFalse hn =>
      rw [List.mem_append] at h
      obtain h | h := h
      · exact ih (n / 10) (by omega) h
      · rw [List.mem_singleton.mp h]
        exact isDigit_digit (Nat.mod_lt n (by decide))

/-- The digits of a number spell it. -/
theorem natural_ofNat (n : Nat) : natural (ofNat n) = n := by
  induction n using Nat.strongRecOn with
  | ind n ih =>
    rw [ofNat_eq]
    split
    case isTrue hn =>
      rw [← List.nil_append [digit n], natural_concat, toNat_digit hn]
      simp [natural]
    case isFalse hn =>
      rw [natural_concat, ih (n / 10) (by omega), toNat_digit (Nat.mod_lt n (by decide))]
      omega

/-- No number but zero starts with a zero. -/
theorem ofNat_eq_cons (n : Nat) : ∃ b rest, ofNat n = b :: rest ∧ (0 < n → b ≠ 48) := by
  induction n using Nat.strongRecOn with
  | ind n ih =>
    rw [ofNat_eq]
    split
    case isTrue hn =>
      refine ⟨digit n, [], rfl, ?_⟩
      intro hpos hzero
      have hcode := toNat_digit hn
      rw [hzero] at hcode
      have : 48 = n + 48 := hcode
      omega
    case isFalse hn =>
      obtain ⟨b, rest, heq, hb⟩ := ih (n / 10) (by omega)
      rw [heq]
      exact ⟨b, rest ++ [digit (n % 10)], rfl, fun _ => hb (by omega)⟩

/-- A text with a number after it ends with a digit. -/
theorem any_getLast?_append_ofNat (t : Text) (n : Nat) :
    (t ++ ofNat n).getLast?.any isDigit = true := by
  obtain ⟨b, rest, htext, -⟩ := ofNat_eq_cons n
  have hne : ofNat n ≠ [] := by simp [htext]
  rw [List.getLast?_append, List.getLast?_eq_some_getLast hne, Option.some_or, Option.any_some]
  exact isDigit_of_mem_ofNat (List.getLast_mem hne)

end PeakLang.Text
