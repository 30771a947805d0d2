import PeakLang.Text.Rune

namespace PeakLang.Rune

section Sequences

variable {a b c d : UInt8} {n : Nat}

theorem toNat_ofNat (h : n.isValidChar) : (Char.ofNat n).val.toNat = n := by
  have hchar : Char.ofNat n = Char.ofNatAux n h := dif_pos h
  rw [hchar]
  rfl

theorem isTail_iff : isTail b = true ↔ 0x80 ≤ b.toNat ∧ b.toNat ≤ 0xBF := by
  simp [isTail, UInt8.le_iff_toNat_le]

theorem ofNat_eq_of_toNat (h : n = b.toNat) : UInt8.ofNat n = b := by
  rw [h, UInt8.ofNat_toNat]

theorem utf8EncodeChar_two (ha : 0xC2 ≤ a.toNat ∧ a.toNat ≤ 0xDF) (hb : isTail b = true)
    (hn : n = (a.toNat - 0xC0) * 64 + tailBits b) :
    String.utf8EncodeChar (Char.ofNat n) = [a, b] ∧ 0x80 ≤ (Char.ofNat n).val.toNat := by
  rw [isTail_iff] at hb
  unfold tailBits at hn
  have hvalid : n.isValidChar := .inl (by omega)
  have h₁ : ¬ n ≤ 127 := by omega
  have h₂ : n ≤ 2047 := by omega
  have hfirst : UInt8.ofNat (n / 64 % 32 + 192) = a := ofNat_eq_of_toNat (by omega)
  have hsecond : UInt8.ofNat (n % 64 + 128) = b := ofNat_eq_of_toNat (by omega)
  simp only [String.utf8EncodeChar, toNat_ofNat hvalid, h₁, h₂, if_true, if_false, hfirst, hsecond,
    true_and]
  omega

theorem utf8EncodeChar_three (ha : 0xE0 ≤ a.toNat ∧ a.toNat ≤ 0xEF) (hb : isTail b = true)
    (hc : isTail c = true) (hn : n = (a.toNat - 0xE0) * 4096 + tailBits b * 64 + tailBits c)
    (hlong : 0x800 ≤ n) (hscalar : ¬(0xD800 ≤ n ∧ n ≤ 0xDFFF)) :
    String.utf8EncodeChar (Char.ofNat n) = [a, b, c] ∧ 0x80 ≤ (Char.ofNat n).val.toNat := by
  rw [isTail_iff] at hb hc
  unfold tailBits at hn
  have hvalid : n.isValidChar := by
    by_cases hlow : n < 0xD800
    · exact .inl hlow
    · exact .inr ⟨by omega, by omega⟩
  have h₁ : ¬ n ≤ 127 := by omega
  have h₂ : ¬ n ≤ 2047 := by omega
  have h₃ : n ≤ 65535 := by omega
  have hfirst : UInt8.ofNat (n / 4096 % 16 + 224) = a := ofNat_eq_of_toNat (by omega)
  have hsecond : UInt8.ofNat (n / 64 % 64 + 128) = b := ofNat_eq_of_toNat (by omega)
  have hthird : UInt8.ofNat (n % 64 + 128) = c := ofNat_eq_of_toNat (by omega)
  simp only [String.utf8EncodeChar, toNat_ofNat hvalid, h₁, h₂, h₃, if_true, if_false, hfirst,
    hsecond, hthird, true_and]
  omega

theorem utf8EncodeChar_four (ha : 0xF0 ≤ a.toNat ∧ a.toNat ≤ 0xF4) (hb : isTail b = true)
    (hc : isTail c = true) (hd : isTail d = true)
    (hn : n = (a.toNat - 0xF0) * 262144 + tailBits b * 4096 + tailBits c * 64 + tailBits d)
    (hlong : 0x10000 ≤ n) (hscalar : n ≤ 0x10FFFF) :
    String.utf8EncodeChar (Char.ofNat n) = [a, b, c, d] ∧ 0x80 ≤ (Char.ofNat n).val.toNat := by
  rw [isTail_iff] at hb hc hd
  unfold tailBits at hn
  have hvalid : n.isValidChar := .inr ⟨by omega, by omega⟩
  have h₁ : ¬ n ≤ 127 := by omega
  have h₂ : ¬ n ≤ 2047 := by omega
  have h₃ : ¬ n ≤ 65535 := by omega
  have hfirst : UInt8.ofNat (n / 262144 % 8 + 240) = a := ofNat_eq_of_toNat (by omega)
  have hsecond : UInt8.ofNat (n / 4096 % 64 + 128) = b := ofNat_eq_of_toNat (by omega)
  have hthird : UInt8.ofNat (n / 64 % 64 + 128) = c := ofNat_eq_of_toNat (by omega)
  have hfourth : UInt8.ofNat (n % 64 + 128) = d := ofNat_eq_of_toNat (by omega)
  simp only [String.utf8EncodeChar, toNat_ofNat hvalid, h₁, h₂, h₃, if_false, hfirst, hsecond,
    hthird, hfourth, true_and]
  omega

/-- A sequence of bytes and the character that is written so. -/
structure Sequence (lead : UInt8) (rest : Text) (c : Char) (n : Nat) : Prop where
  bytes : String.utf8EncodeChar c = lead :: rest.take n
  tail : ∀ b ∈ rest.take n, isTail b = true
  length_le : n ≤ rest.length
  code : 0x80 ≤ c.val.toNat

theorem sequence?_sound {lead : UInt8} {rest : Text} {c : Char} (h : sequence? lead rest = some (c, n)) :
    Sequence lead rest c n := by
  simp only [sequence?, Bool.and_eq_true, decide_eq_true_eq, UInt8.le_iff_toNat_le,
    Bool.not_eq_true', Bool.and_eq_false_iff, decide_eq_false_iff_not] at h
  split at h
  case isTrue hlead =>
    split at h
    case h_2 => exact nomatch h
    case h_1 b more =>
      obtain ⟨hb, h⟩ := Option.ite_none_right_eq_some.mp h
      obtain ⟨rfl, rfl⟩ := Prod.mk.inj (Option.some.inj h)
      obtain ⟨hbytes, hcode⟩ := utf8EncodeChar_two hlead hb rfl
      exact ⟨hbytes, by simpa using hb, by simp, hcode⟩
  case isFalse =>
    split at h
    case isTrue hlead =>
      split at h
      case h_2 => exact nomatch h
      case h_1 b c more =>
        obtain ⟨⟨⟨⟨hb, hc⟩, hlong⟩, hscalar⟩, h⟩ := Option.ite_none_right_eq_some.mp h
        obtain ⟨rfl, rfl⟩ := Prod.mk.inj (Option.some.inj h)
        obtain ⟨hbytes, hcode⟩ := utf8EncodeChar_three hlead hb hc rfl hlong (by omega)
        exact ⟨hbytes, by simp [hb, hc], by simp, hcode⟩
    case isFalse =>
      obtain ⟨hlead, h⟩ := Option.ite_none_right_eq_some.mp h
      split at h
      case h_2 => exact nomatch h
      case h_1 b c d more =>
        obtain ⟨⟨⟨⟨⟨hb, hc⟩, hd⟩, hlong⟩, hscalar⟩, h⟩ := Option.ite_none_right_eq_some.mp h
        obtain ⟨rfl, rfl⟩ := Prod.mk.inj (Option.some.inj h)
        obtain ⟨hbytes, hcode⟩ := utf8EncodeChar_four hlead hb hc hd rfl hlong hscalar
        exact ⟨hbytes, by simp [hb, hc, hd], by simp, hcode⟩

/-- The byte that continues a sequence with the low bits of a number. -/
def tailByte (n : Nat) : UInt8 := UInt8.ofNat (n % 64 + 128)

theorem toNat_tailByte (n : Nat) : (tailByte n).toNat = n % 64 + 128 := by
  rw [tailByte, UInt8.toNat_ofNat']
  omega

@[simp]
theorem isTail_tailByte (n : Nat) : isTail (tailByte n) = true := by
  rw [isTail_iff, toNat_tailByte]
  omega

@[simp]
theorem tailBits_tailByte (n : Nat) : tailBits (tailByte n) = n % 64 := by
  unfold tailBits
  rw [toNat_tailByte]
  exact Nat.add_sub_cancel _ _

/-- The bytes of a character past ASCII are a sequence. -/
theorem sequence?_encode (c : Char) (h : 0x80 ≤ c.val.toNat) :
    ∃ lead tail, String.utf8EncodeChar c = lead :: tail ∧ 0x80 ≤ lead.toNat ∧
      ∀ rest, sequence? lead (tail ++ rest) = some (c, tail.length) := by
  have hvalid : c.val.toNat < 0xD800 ∨ 0xDFFF < c.val.toNat ∧ c.val.toNat < 0x110000 := c.valid
  have hchar : Char.ofNat c.val.toNat = c := Char.ofNat_toNat c
  generalize c.val.toNat = n at h hvalid hchar
  subst hchar
  have hn := toNat_ofNat (n := n) hvalid
  have h₁ : ¬ n ≤ 127 := by omega
  by_cases h₂ : n ≤ 2047
  case pos =>
    obtain ⟨lead, hlead⟩ : ∃ b, UInt8.ofNat (n / 64 % 32 + 192) = b := ⟨_, rfl⟩
    have hcode : lead.toNat = n / 64 + 192 := by rw [← hlead, UInt8.toNat_ofNat']; omega
    refine ⟨lead, [tailByte n], ?_, by omega, fun rest => ?_⟩
    · simp only [String.utf8EncodeChar, hn, h₁, h₂, if_true, if_false, hlead, tailByte]
    · have hrange : 0xC2 ≤ lead.toNat ∧ lead.toNat ≤ 0xDF := by omega
      have hvalue : (lead.toNat - 0xC0) * 64 + n % 64 = n := by omega
      simp [sequence?, UInt8.le_iff_toNat_le, hrange, hvalue]
  case neg =>
    by_cases h₃ : n ≤ 65535
    case pos =>
      obtain ⟨lead, hlead⟩ : ∃ b, UInt8.ofNat (n / 4096 % 16 + 224) = b := ⟨_, rfl⟩
      have hcode : lead.toNat = n / 4096 + 224 := by rw [← hlead, UInt8.toNat_ofNat']; omega
      refine ⟨lead, [tailByte (n / 64), tailByte n], ?_, by omega, fun rest => ?_⟩
      · simp only [String.utf8EncodeChar, hn, h₁, h₂, h₃, if_true, if_false, hlead, tailByte]
      · have hrange : 0xE0 ≤ lead.toNat ∧ lead.toNat ≤ 0xEF := by omega
        have hnot : ¬(0xC2 ≤ lead.toNat ∧ lead.toNat ≤ 0xDF) := by omega
        have hvalue : (lead.toNat - 0xE0) * 4096 + n / 64 % 64 * 64 + n % 64 = n := by omega
        have hlong : 0x800 ≤ n := by omega
        have hscalar : n < 0xD800 ∨ 0xDFFF < n := by omega
        simp [sequence?, UInt8.le_iff_toNat_le, hrange, hnot, hvalue, hlong, hscalar]
    case neg =>
      obtain ⟨lead, hlead⟩ : ∃ b, UInt8.ofNat (n / 262144 % 8 + 240) = b := ⟨_, rfl⟩
      have hcode : lead.toNat = n / 262144 + 240 := by rw [← hlead, UInt8.toNat_ofNat']; omega
      refine ⟨lead, [tailByte (n / 4096), tailByte (n / 64), tailByte n], ?_, by omega,
        fun rest => ?_⟩
      · simp only [String.utf8EncodeChar, hn, h₁, h₂, h₃, if_false, hlead, tailByte]
      · have hrange : 0xF0 ≤ lead.toNat ∧ lead.toNat ≤ 0xF4 := by omega
        have hnot : ¬(0xC2 ≤ lead.toNat ∧ lead.toNat ≤ 0xDF) := by omega
        have hnot' : ¬(0xE0 ≤ lead.toNat ∧ lead.toNat ≤ 0xEF) := by omega
        have hvalue : (lead.toNat - 0xF0) * 262144 + n / 4096 % 64 * 4096 + n / 64 % 64 * 64 +
            n % 64 = n := by omega
        have hlong : 0x10000 ≤ n := by omega
        have hscalar : n ≤ 0x10FFFF := by omega
        simp [sequence?, UInt8.le_iff_toNat_le, hrange, hnot, hnot', hvalue, hlong, hscalar]

/-- The bytes of a character past ASCII are all past ASCII. -/
theorem le_of_mem_utf8EncodeChar {c : Char} (hc : 0x80 ≤ c.val.toNat) {b : UInt8}
    (hb : b ∈ String.utf8EncodeChar c) : 128 ≤ b.toNat := by
  obtain ⟨lead, tail, hbytes, hlead, hsequence⟩ := sequence?_encode c hc
  have hsound := sequence?_sound (hsequence [])
  rw [hbytes, List.mem_cons] at hb
  obtain rfl | hb := hb
  · exact hlead
  · have htail := hsound.tail b (by rw [List.append_nil, List.take_length]; exact hb)
    exact (isTail_iff.mp htail).1

theorem utf8EncodeChar_of_lt {c : Char} (hc : c.val.toNat < 0x80) :
    String.utf8EncodeChar c = [UInt8.ofNat c.val.toNat] := by
  simp only [String.utf8EncodeChar]
  exact if_pos (by omega)

/-- What follows a sequence does not change it, unless it could continue one. -/
theorem sequence?_append {lead : UInt8} {rest more : Text}
    (hmore : ∀ b ∈ more.head?, isTail b = false) :
    sequence? lead (rest ++ more) = sequence? lead rest := by
  match more with
  | [] => rw [List.append_nil]
  | b :: more =>
    have hb : isTail b = false := hmore b rfl
    match rest with
    | [] | [_] | [_, _] | _ :: _ :: _ :: _ =>
      rcases more with _ | ⟨b', _ | ⟨b'', more⟩⟩ <;> simp [sequence?, hb]

end Sequences

section First

theorem first_ascii {lead : UInt8} (h : lead < 0x80) (rest : Text) :
    first lead rest = (.scalar (Char.ofNat lead.toNat), 0) := if_pos h

theorem utf8EncodeChar_ascii {lead : UInt8} (h : lead < 0x80) :
    String.utf8EncodeChar (Char.ofNat lead.toNat) = [lead] := by
  have hlt : lead.toNat < 0x80 := UInt8.lt_iff_toNat_lt.mp h
  have hvalid : lead.toNat.isValidChar := .inl (by omega)
  have hle : lead.toNat ≤ 127 := by omega
  simp only [String.utf8EncodeChar, toNat_ofNat hvalid, hle, if_true, UInt8.ofNat_toNat]

/-- What the first rune of a text takes. Past ASCII it is no ASCII character, and its further bytes
are tail bytes. -/
structure Takes (lead : UInt8) (rest : Text) (r : Rune) (n : Nat) : Prop where
  bytes : r.bytes = lead :: rest.take n
  length_le : n ≤ rest.length
  tail : ∀ b ∈ rest.take n, isTail b = true
  code : ¬ lead < 0x80 → 0x80 ≤ r.char.val.toNat

theorem first_takes (lead : UInt8) (rest : Text) :
    Takes lead rest (first lead rest).1 (first lead rest).2 := by
  unfold first
  split
  case isTrue h => exact ⟨utf8EncodeChar_ascii h, Nat.zero_le _, nofun, fun hnot => absurd h hnot⟩
  case isFalse =>
    split
    case h_1 c n hsequence =>
      obtain ⟨hbytes, htail, hlength, hcode⟩ := sequence?_sound hsequence
      exact ⟨hbytes, hlength, htail, fun _ => hcode⟩
    case h_2 =>
      have hcode : 0x80 ≤ '�'.val.toNat := by decide
      exact ⟨rfl, Nat.zero_le _, nofun, fun _ => hcode⟩

theorem first_append {lead : UInt8} {rest more : Text} (hmore : ∀ b ∈ more.head?, isTail b = false) :
    first lead (rest ++ more) = first lead rest := by
  rw [first, first, sequence?_append hmore]

end First

section Decode

theorem decodeAfter_eq (n : Nat) (t : Text) : decodeAfter n t = decode (t.drop n) := by
  induction n generalizing t with
  | zero => rfl
  | succ n ih =>
    cases t with
    | nil => rfl
    | cons b t => exact ih t

theorem decode_cons (lead : UInt8) (rest : Text) :
    decode (lead :: rest) = (first lead rest).1 :: decode (rest.drop (first lead rest).2) := by
  rw [← decodeAfter_eq]
  rfl

theorem decode_ascii_cons {lead : UInt8} (h : lead < 0x80) (rest : Text) :
    decode (lead :: rest) = .scalar (Char.ofNat lead.toNat) :: decode rest := by
  rw [decode_cons, first_ascii h]
  rfl

/-- Texts can be taken apart rune by rune. -/
theorem decode_induction {motive : Text → Prop} (nil : motive [])
    (cons : ∀ lead rest, motive (rest.drop (first lead rest).2) → motive (lead :: rest)) (t : Text) :
    motive t := by
  generalize hsize : t.length = size
  induction size using Nat.strongRecOn generalizing t with
  | ind size ih =>
    cases t with
    | nil => exact nil
    | cons lead rest =>
      refine cons lead rest (ih _ ?_ _ rfl)
      rw [List.length_cons] at hsize
      rw [List.length_drop]
      omega

/-- The runes of a text spell it. -/
theorem encode_decode (t : Text) : encode (decode t) = t := by
  induction t using decode_induction with
  | nil => rfl
  | cons lead rest ih =>
    have hbytes := (first_takes lead rest).bytes
    rw [encode] at ih
    rw [decode_cons, encode, List.flatMap_cons, ih, hbytes, List.cons_append, List.take_append_drop]

/-- A text is read apart before a byte that does not continue a sequence. -/
theorem decode_append (t : Text) {more : Text} (hmore : ∀ b ∈ more.head?, isTail b = false) :
    decode (t ++ more) = decode t ++ decode more := by
  induction t using decode_induction with
  | nil => rfl
  | cons lead rest ih =>
    have hlength := (first_takes lead rest).length_le
    rw [List.cons_append, decode_cons, decode_cons, first_append hmore,
      List.drop_append_of_le_length hlength, ih, List.cons_append]

theorem decode_append_ascii (t : Text) {b : UInt8} (h : b < 0x80) (rest : Text) :
    decode (t ++ b :: rest) = decode t ++ decode (b :: rest) := by
  refine decode_append t fun b' hb' => ?_
  obtain rfl : b = b' := Option.some.inj hb'
  have hlt : b.toNat < 0x80 := UInt8.lt_iff_toNat_lt.mp h
  refine Bool.eq_false_iff.mpr fun htail => ?_
  have hge := (isTail_iff.mp htail).1
  omega

/-- A character is read as itself. -/
theorem decode_utf8EncodeChar_append (c : Char) (rest : Text) :
    decode (String.utf8EncodeChar c ++ rest) = .scalar c :: decode rest := by
  by_cases h : 0x80 ≤ c.val.toNat
  case pos =>
    obtain ⟨lead, tail, hbytes, hlead, hsequence⟩ := sequence?_encode c h
    have hnot : ¬ lead < 0x80 := fun hlt => by
      have hlt : lead.toNat < 0x80 := UInt8.lt_iff_toNat_lt.mp hlt
      omega
    rw [hbytes, List.cons_append, decode_cons, first, if_neg hnot, hsequence]
    simp only [List.drop_left]
  case neg =>
    obtain ⟨b, hb⟩ : ∃ b, UInt8.ofNat c.val.toNat = b := ⟨_, rfl⟩
    have hcode : b.toNat = c.val.toNat := by rw [← hb, UInt8.toNat_ofNat']; omega
    have hlt : b < 0x80 := UInt8.lt_iff_toNat_lt.mpr (show b.toNat < 128 by omega)
    have hbytes : String.utf8EncodeChar c = [b] := by rw [utf8EncodeChar_of_lt (by omega), hb]
    have hchar : Char.ofNat b.toNat = c := by
      rw [hcode]
      exact Char.ofNat_toNat c
    rw [hbytes, List.singleton_append, decode_ascii_cons hlt, hchar]

/-- Characters are read as themselves. -/
theorem decode_encode_append (cs : List Char) (rest : Text) :
    decode (encode (cs.map .scalar) ++ rest) = cs.map .scalar ++ decode rest := by
  induction cs with
  | nil => rfl
  | cons c cs ih =>
    rw [encode] at ih
    rw [List.map_cons, encode, List.flatMap_cons, List.append_assoc]
    exact (decode_utf8EncodeChar_append c _).trans (by rw [ih, List.cons_append])

theorem decode_encode_scalar (cs : List Char) : decode (encode (cs.map .scalar)) = cs.map .scalar := by
  have h := decode_encode_append cs []
  rwa [List.append_nil, show decode [] = [] from rfl, List.append_nil] at h

/-- A rune that is read from a text and holds an ASCII byte is that ASCII character. -/
theorem eq_scalar_of_mem_bytes {t : Text} {r : Rune} (h : r ∈ decode t) {b : UInt8} (hb : b < 0x80)
    (hmem : b ∈ r.bytes) : r = .scalar (Char.ofNat b.toNat) := by
  induction t using decode_induction with
  | nil => cases h
  | cons lead rest ih =>
    rw [decode_cons, List.mem_cons] at h
    obtain rfl | h := h
    case inr => exact ih h
    obtain ⟨hbytes, -, htail, -⟩ := first_takes lead rest
    rw [hbytes, List.mem_cons] at hmem
    obtain rfl | hmem := hmem
    · rw [first_ascii hb]
    · have hlow : b.toNat < 0x80 := UInt8.lt_iff_toNat_lt.mp hb
      have hhigh := (isTail_iff.mp (htail b hmem)).1
      omega

/-- A rune that is read from a text holds the byte zero only if it is NUL. -/
theorem zero_notMem_bytes {t : Text} {r : Rune} (h : r ∈ decode t) (hchar : r.char.val.toNat ≠ 0) :
    0 ∉ r.bytes := by
  intro hmem
  rw [eq_scalar_of_mem_bytes h (by decide) hmem] at hchar
  exact hchar rfl

end Decode

section Whole

/-- Whether runes are what the text that they spell is read as. -/
def Whole (runes : List Rune) : Prop := decode (encode runes) = runes

theorem encode_append (runes more : List Rune) : encode (runes ++ more) = encode runes ++ encode more :=
  List.flatMap_append

theorem encode_cons (r : Rune) (runes : List Rune) : encode (r :: runes) = r.bytes ++ encode runes :=
  List.flatMap_cons

theorem whole_decode (t : Text) : Whole (decode t) := by
  rw [Whole, encode_decode]

variable {r : Rune} {runes more : List Rune}

theorem Whole.length_eq (h : Whole runes) : (encode runes).runeCount = runes.length := by
  rw [Text.runeCount, h]

/-- A sequence is read again where its bytes stand. -/
theorem sequence?_of_take {lead : UInt8} {rest rest' : Text} {c : Char} {n : Nat}
    (h : sequence? lead rest = some (c, n)) (htake : rest'.take n = rest.take n) :
    sequence? lead rest' = some (c, n) := by
  obtain ⟨hbytes, -, hlength, hcode⟩ := sequence?_sound h
  obtain ⟨lead', tail, hbytes', -, hsequence⟩ := sequence?_encode c hcode
  obtain ⟨rfl, rfl⟩ := List.cons.inj (hbytes'.symm.trans hbytes)
  have hagain := hsequence (rest'.drop n)
  rwa [← htake, List.take_append_drop, htake, List.length_take, Nat.min_eq_left hlength] at hagain

/-- The first rune of a text that runes spell, with what it takes. -/
theorem Whole.first_eq (h : Whole (r :: runes)) :
    ∃ lead tail, r.bytes = lead :: tail ∧ first lead (tail ++ encode runes) = (r, tail.length) ∧
      Whole runes := by
  rw [Whole, encode_cons] at h
  cases hbytes : r.bytes with
  | nil =>
    -- a rune without bytes would leave one rune too few to be read
    have hempty : r.bytes ≠ [] := by
      cases r with
      | scalar c =>
        intro hnil
        have hread := decode_utf8EncodeChar_append c []
        rw [show String.utf8EncodeChar c = [] from hnil] at hread
        cases hread
      | stray b => exact List.cons_ne_nil _ _
    exact absurd hbytes hempty
  | cons lead tail =>
    rw [hbytes, List.cons_append, decode_cons, List.cons.injEq] at h
    obtain ⟨hfirst, hrest⟩ := h
    have htakes := (first_takes lead (tail ++ encode runes)).bytes
    have hlength := (first_takes lead (tail ++ encode runes)).length_le
    rw [hfirst, hbytes, List.cons.injEq] at htakes
    have hcount : (first lead (tail ++ encode runes)).2 = tail.length := by
      have hsame := congrArg List.length htakes.2
      rw [List.length_take, Nat.min_eq_left hlength] at hsame
      exact hsame.symm
    refine ⟨lead, tail, rfl, Prod.ext hfirst hcount, ?_⟩
    rwa [hcount, List.drop_left] at hrest

theorem Whole.tail (h : Whole (r :: runes)) : Whole runes := by
  obtain ⟨-, -, -, -, hrest⟩ := h.first_eq
  exact hrest

theorem Whole.of_suffix (h : Whole (more ++ runes)) : Whole runes := by
  induction more with
  | nil => exact h
  | cons r more ih => exact ih (Whole.tail h)

/-- The first rune of a text stays the first when the end of the text is cut off behind it. -/
theorem first_of_append {lead : UInt8} {rest more : Text}
    (h : (first lead (rest ++ more)).2 ≤ rest.length) : first lead rest = first lead (rest ++ more) := by
  by_cases hascii : lead < 0x80
  · rw [first_ascii hascii, first_ascii hascii]
  · have htake {n : Nat} (hn : n ≤ rest.length) : (rest ++ more).take n = rest.take n :=
      List.take_append_of_le_length hn
    rw [first, if_neg hascii] at h ⊢
    rw [first, if_neg hascii]
    cases hlong : sequence? lead (rest ++ more) with
    | some found =>
      rw [hlong] at h
      rw [sequence?_of_take hlong (htake h).symm]
    | none =>
      cases hshort : sequence? lead rest with
      | none => rfl
      | some found =>
        have hfound := sequence?_of_take hshort (htake (sequence?_sound hshort).length_le)
        rw [hlong] at hfound
        cases hfound

theorem Whole.of_prefix (h : Whole (runes ++ more)) : Whole runes := by
  induction runes with
  | nil => rfl
  | cons r runes ih =>
    rw [List.cons_append] at h
    obtain ⟨lead, tail, hbytes, hfirst, hrest⟩ := h.first_eq
    rw [encode_append, ← List.append_assoc] at hfirst
    have hcut : first lead (tail ++ encode runes) = (r, tail.length) := by
      rw [first_of_append, hfirst]
      rw [hfirst, List.length_append]
      exact Nat.le_add_right _ _
    rw [Whole, encode_cons, hbytes, List.cons_append, decode_cons, hcut, List.drop_left]
    rw [show decode (encode runes) = runes from ih hrest]

/-- Runes may be joined at an ASCII character. -/
theorem Whole.join (h : Whole runes) (h' : Whole more) {b : UInt8} (hb : b < 0x80) :
    Whole (runes ++ .scalar (Char.ofNat b.toNat) :: more) := by
  have hbytes : bytes (.scalar (Char.ofNat b.toNat)) = [b] := utf8EncodeChar_ascii hb
  rw [Whole, encode_append, encode_cons, hbytes, List.singleton_append, decode_append_ascii _ hb,
    decode_ascii_cons hb, show decode (encode runes) = runes from h,
    show decode (encode more) = more from h']

end Whole

end PeakLang.Rune
