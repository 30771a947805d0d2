import PeakLang.Proofs.Js.Written
import PeakLang.Proofs.Token.Lexeme

namespace PeakLang.Js

section Bytes

theorem isWordByte_of_le {b : UInt8} (h : 128 ≤ b.toNat) : isWordByte b = true := by
  have hle : (128 : UInt8) ≤ b := UInt8.le_iff_toNat_le.mpr h
  simp [isWordByte, hle]

theorem isWordByte_ascii : ∀ n < 128, Scan.inWord (Char.ofNat n) = true →
    isWordByte (UInt8.ofNat n) = true := by
  decide

theorem isWordByte_of_inWord {c : Char} (hc : Scan.inWord c = true) {b : UInt8}
    (hb : b ∈ String.utf8EncodeChar c) : isWordByte b = true := by
  by_cases hwide : 0x80 ≤ c.val.toNat
  · exact isWordByte_of_le (Rune.le_of_mem_utf8EncodeChar hwide hb)
  · rw [Rune.utf8EncodeChar_of_lt (by omega), List.mem_singleton] at hb
    rw [hb]
    refine isWordByte_ascii _ (by omega) ?_
    rwa [show Char.ofNat c.val.toNat = c from Char.ofNat_toNat c]

end Bytes

/-- Whether a text has none of the letters that JavaScript does not take in names. -/
def IsPlain (n : Text) : Prop := .scalar verticalTilde ∉ Rune.decode n

instance : DecidablePred IsPlain := fun _ => inferInstanceAs (Decidable (_ ∉ _))

section Spelling

theorem inName_of_inWord {c : Char} (hc : Scan.inWord c = true) (hplain : c ≠ verticalTilde) :
    inName c = true ∧ (Scan.startsWord c = true → startsName c = true) := by
  have hstarts (h : Scan.startsWord c = true) : startsName c = true := by
    rw [Scan.startsWord, Bool.or_eq_true] at h
    obtain h | h := h
    · simp [startsName, h]
    · simp [startsName, h, hplain]
  refine ⟨?_, hstarts⟩
  rw [Scan.inWord, Bool.or_eq_true] at hc
  rw [inName, Bool.or_eq_true]
  exact hc.imp_left hstarts

theorem decode_ascii {t : Text} (h : ∀ b ∈ t, b < 0x80) :
    Rune.decode t = t.map fun b => .scalar (Char.ofNat b.toNat) := by
  induction t with
  | nil => rfl
  | cons b t ih =>
    obtain ⟨hb, ht⟩ := List.forall_mem_cons.mp h
    rw [Rune.decode_ascii_cons hb, ih ht, List.map_cons]

theorem inName_digit : ∀ n < 58, 48 ≤ n → inName (Char.ofNat n) = true := by decide

/-- The number after a word, as runes of a name. -/
theorem decode_number (k : Nat) :
    ∃ cs : List Char, Rune.decode ("_" ++ Text.ofNat k) = cs.map .scalar ∧
      ∀ c ∈ cs, inName c = true := by
  have hdigits (b : UInt8) (hb : b ∈ Text.ofNat k) : 48 ≤ b.toNat ∧ b.toNat ≤ 57 :=
    Text.isDigit_iff.mp (Text.isDigit_of_mem_ofNat hb)
  refine ⟨'_' :: (Text.ofNat k).map fun b => Char.ofNat b.toNat, ?_, ?_⟩
  · have hascii (b : UInt8) (hb : b ∈ Text.ofNat k) : b < 0x80 := by
      have hle := (hdigits b hb).2
      exact UInt8.lt_iff_toNat_lt.mpr (show b.toNat < 128 by omega)
    rw [show Text.ofString "_" ++ Text.ofNat k = 95 :: Text.ofNat k from rfl,
      Rune.decode_ascii_cons (by decide), decode_ascii hascii, List.map_cons, List.map_map]
    rfl
  · refine List.forall_mem_cons.mpr ⟨by decide, ?_⟩
    intro c hc
    obtain ⟨b, hb, rfl⟩ := List.mem_map.mp hc
    obtain ⟨hlow, hhigh⟩ := hdigits b hb
    exact inName_digit _ (by omega) hlow

/-- The words that are no names. -/
def keywords : List Text := "this" :: "new" :: "true" :: "false" :: reserved

theorem keywords_end : ∀ w ∈ keywords, w.getLast?.any Text.isDigit = false := by decide

theorem isInteger_all {word : Text} (h : isInteger word = true) : ∀ b ∈ word, Text.isDigit b = true := by
  cases word with
  | nil => exact List.forall_mem_nil _
  | cons b tail =>
    rw [isInteger, Bool.and_eq_true] at h
    exact List.all_eq_true.mp h.1

theorem word?_eq_name {word : Text} (hinteger : isInteger word = false) (hkeyword : word ∉ keywords)
    (h : spellsName (Rune.decode word) = true) : word? word = some (.name word) := by
  simp only [keywords, List.mem_cons, not_or] at hkeyword
  simp [word?, hinteger, hkeyword, h]

theorem notMem_keywords (word : Text) (k : Nat) : word ++ "_" ++ Text.ofNat k ∉ keywords := by
  intro hmem
  have hnot := keywords_end _ hmem
  rw [Text.any_getLast?_append_ofNat] at hnot
  cases hnot

/-- A word with a number is a name, if it has the characters of one. -/
theorem word?_number {word : Text} {k : Nat}
    (h : spellsName (Rune.decode (word ++ "_" ++ Text.ofNat k)) = true) :
    word? (word ++ "_" ++ Text.ofNat k) = some (.name (word ++ "_" ++ Text.ofNat k)) := by
  have hinteger : isInteger (word ++ "_" ++ Text.ofNat k) = false := by
    refine Bool.eq_false_iff.mpr fun hinteger => ?_
    have hunderscore : (95 : UInt8) ∈ word ++ "_" ++ Text.ofNat k :=
      List.mem_append_left _ (List.mem_append_right _ List.mem_cons_self)
    have hdigit := isInteger_all hinteger 95 hunderscore
    cases hdigit
  exact word?_eq_name hinteger (notMem_keywords word k) h

/-- A name that was given is a JavaScript name if it is plain. -/
theorem isIdentifier_of_isPlain {source : Text} {k : Nat} (hsource : Lexeme.IsName source)
    (hplain : IsPlain (source ++ "_" ++ Text.ofNat k)) :
    IsIdentifier (source ++ "_" ++ Text.ofNat k) := by
  obtain ⟨cs, hcs, ⟨first, hfirst, hstarts⟩, hword, -⟩ := hsource
  obtain ⟨ds, hds, hdigits⟩ := decode_number k
  have hdecode : Rune.decode (source ++ "_" ++ Text.ofNat k) = (cs ++ ds).map .scalar := by
    rw [List.append_assoc, hcs, Rune.decode_encode_append, hds, List.map_append]
  have hnames : ∀ c ∈ cs, inName c = true ∧ (Scan.startsWord c = true → startsName c = true) := by
    intro c hc
    refine inName_of_inWord (hword c hc) ?_
    rintro rfl
    apply hplain
    rw [hdecode]
    exact List.mem_map_of_mem (List.mem_append_left _ hc)
  constructor
  · intro b hb
    rw [List.append_assoc, List.mem_append] at hb
    obtain hb | hb := hb
    · rw [hcs, Rune.encode, List.mem_flatMap] at hb
      obtain ⟨r, hr, hb⟩ := hb
      obtain ⟨c, hc, rfl⟩ := List.mem_map.mp hr
      exact isWordByte_of_inWord (hword c hc) hb
    · obtain rfl | hb := List.mem_cons.mp hb
      · rfl
      · exact isWordByte_of_isDigit (Text.isDigit_of_mem_ofNat hb)
  · apply word?_number
    rw [hdecode]
    cases cs with
    | nil => cases hfirst
    | cons c cs =>
      cases hfirst
      obtain ⟨hc, hrest⟩ := List.forall_mem_cons.mp hnames
      rw [List.cons_append, List.map_cons, spellsName, hc.2 hstarts, Bool.true_and, List.all_map,
        List.all_eq_true]
      intro d hd
      obtain hd | hd := List.mem_append.mp hd
      · exact (hrest d hd).1
      · exact hdigits d hd

end Spelling

end PeakLang.Js
