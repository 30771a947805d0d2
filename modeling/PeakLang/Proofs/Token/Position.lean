import Mathlib.Data.List.DropRight
import PeakLang.Pos
import PeakLang.Proofs.Text.Rune

namespace PeakLang

namespace Rune

def endsLine (r : Rune) : Bool := r.char == '\n'

theorem bytes_of_char {r : Rune} {b : UInt8} (hb : b < 0x80) (h : r.char = Char.ofNat b.toNat) :
    r.bytes = [b] := by
  cases r with
  | scalar c =>
    obtain rfl : c = Char.ofNat b.toNat := h
    exact utf8EncodeChar_ascii hb
  | stray b' =>
    have hlt : b.toNat < 0x80 := UInt8.lt_iff_toNat_lt.mp hb
    have hcode := congrArg (fun c : Char => c.val.toNat) h
    simp only [toNat_ofNat (.inl (show b.toNat < 0xD800 by omega))] at hcode
    have hwide : (char (.stray b')).val.toNat = 0xFFFD := rfl
    omega

theorem bytes_of_endsLine {r : Rune} (h : r.endsLine = true) : r.bytes = [10] :=
  bytes_of_char (by decide) (beq_iff_eq.mp h)

variable {r : Rune} {runes : List Rune}

/-- A line feed stands in a source only where a line ends. -/
theorem Whole.lineFeed_notMem_bytes (h : Whole runes) (hr : r ∈ runes) (hline : r.endsLine = false) :
    10 ∉ r.bytes := by
  intro hmem
  rw [← h] at hr
  rw [eq_scalar_of_mem_bytes hr (by decide) hmem] at hline
  cases hline

theorem Whole.count_lineFeed (h : Whole runes) : (encode runes).count 10 = runes.countP endsLine := by
  have hbytes : ∀ r ∈ runes, r.bytes.count 10 = if r.endsLine then 1 else 0 := by
    intro r hr
    cases hline : r.endsLine with
    | true =>
      rw [bytes_of_endsLine hline]
      rfl
    | false => exact List.count_eq_zero.mpr (h.lineFeed_notMem_bytes hr hline)
  clear h
  induction runes with
  | nil => rfl
  | cons r runes ih =>
    rw [encode_cons, List.count_append, hbytes r (List.mem_cons_self ..), List.countP_cons,
      ih fun r' hr' => hbytes r' (List.mem_cons_of_mem _ hr'), Nat.add_comm]

end Rune

namespace Text

/-- What stands after the last line feed of a text. -/
def lastLine (t : Text) : Text := t.rtakeWhile (· != 10)

theorem lastLine_append {t more : Text} (h : 10 ∉ more) : lastLine (t ++ more) = lastLine t ++ more := by
  have hmore : ∀ b ∈ more.reverse, (b != 10) = true := by
    intro b hb
    rw [bne_iff_ne]
    rintro rfl
    exact h (List.mem_reverse.mp hb)
  rw [lastLine, List.rtakeWhile, List.reverse_append, List.takeWhile_append_of_pos hmore,
    List.reverse_append, List.reverse_reverse]
  rfl

/-- Only what stands after a line feed matters. -/
theorem lastLine_append_of_mem {t more : Text} (h : 10 ∈ more) : lastLine (t ++ more) = lastLine more := by
  induction more using List.reverseRecOn with
  | nil => cases h
  | append_singleton more b ih =>
    rw [← List.append_assoc, lastLine, List.rtakeWhile_concat, lastLine, List.rtakeWhile_concat]
    by_cases hb : b = 10
    · rw [if_neg (by simp [hb]), if_neg (by simp [hb])]
    · have hmore : 10 ∈ more := by
        obtain h | h := List.mem_append.mp h
        · exact h
        · exact absurd (List.mem_singleton.mp h).symm hb
      rw [show (t ++ more).rtakeWhile (· != 10) = more.rtakeWhile (· != 10) from ih hmore]

end Text

namespace Rune

/-- The runes after the last one that ends a line. -/
def lastLine (runes : List Rune) : List Rune := runes.rtakeWhile fun r => !r.endsLine

theorem lastLine_concat (runes : List Rune) (r : Rune) :
    lastLine (runes ++ [r]) = if r.endsLine then [] else lastLine runes ++ [r] := by
  rw [lastLine, List.rtakeWhile_concat]
  cases r.endsLine <;> rfl

theorem Whole.lastLine_encode {runes : List Rune} (h : Whole runes) :
    (encode runes).lastLine = encode (lastLine runes) := by
  induction runes using List.reverseRecOn with
  | nil => rfl
  | append_singleton runes r ih =>
    have hr : r ∈ runes ++ [r] := List.mem_append_right _ (List.mem_singleton_self r)
    have hencode : encode [r] = r.bytes := List.append_nil _
    rw [encode_append, hencode, lastLine_concat]
    cases hline : r.endsLine with
    | true =>
      rw [bytes_of_endsLine hline, Text.lastLine, List.rtakeWhile_concat_neg _ _ _ (by decide)]
      rfl
    | false =>
      rw [Text.lastLine_append (h.lineFeed_notMem_bytes hr hline), ih h.of_prefix,
        if_neg Bool.false_ne_true, encode_append, hencode]

end Rune

namespace Pos

open Rune (Whole encode)

/-- The position behind a text: one plus the number of its line feeds, and one plus the number of
the runes after the last of them. -/
def after (before : Text) : Pos :=
  ⟨1 + before.count 10, 1 + before.lastLine.runeCount⟩

/-- The position behind one more rune. -/
def past (p : Pos) (r : Rune) : Pos := if r.endsLine then p.nextLine else p.right

variable {runes more : List Rune}

theorem after_encode (h : Whole runes) :
    after (encode runes) = ⟨1 + runes.countP Rune.endsLine, 1 + (Rune.lastLine runes).length⟩ := by
  have hlast : Whole (Rune.lastLine runes) := by
    obtain ⟨front, hfront⟩ := List.rtakeWhile_suffix (fun r : Rune => !r.endsLine) runes
    rw [← hfront] at h
    exact h.of_suffix
  rw [after, h.count_lineFeed, h.lastLine_encode, hlast.length_eq]

theorem after_encode_concat {r : Rune} (h : Whole (runes ++ [r])) :
    after (encode (runes ++ [r])) = (after (encode runes)).past r := by
  rw [after_encode h, after_encode h.of_prefix, List.countP_append, Rune.lastLine_concat, past]
  cases hline : r.endsLine with
  | true =>
    simp [hline, nextLine, Int.add_assoc]
  | false =>
    simp [hline, right, Int.add_assoc]

/-- A reader of a source that has read some runes stands behind them. -/
theorem after_encode_append (h : Whole (runes ++ more)) :
    after (encode (runes ++ more)) = more.foldl past (after (encode runes)) := by
  induction more using List.reverseRecOn with
  | nil => rw [List.append_nil, List.foldl_nil]
  | append_singleton more r ih =>
    rw [← List.append_assoc] at h ⊢
    rw [after_encode_concat h, ih h.of_prefix, List.foldl_append, List.foldl_cons, List.foldl_nil]

/-- The runes of one line are passed to the right. -/
theorem foldl_past {p : Pos} (h : ∀ r ∈ runes, r.endsLine = false) :
    runes.foldl past p = p.rightBy runes.length := by
  induction runes generalizing p with
  | nil => simp [rightBy]
  | cons r runes ih =>
    rw [List.foldl_cons, past, h r (List.mem_cons_self ..), if_neg Bool.false_ne_true,
      ih fun r' hr' => h r' (List.mem_cons_of_mem _ hr')]
    have hcolumn : p.column + 1 + (runes.length : Int) = p.column + ((runes.length + 1 : Nat) : Int) := by
      omega
    simp only [rightBy, right, List.length_cons, hcolumn]

end Pos

end PeakLang
