import PeakLang.Number.Shortest
import PeakLang.Proofs.Text.Decimal

namespace PeakLang.Binary64

/-- The bytes of written numbers that are no digits. -/
def numberMarks : Text := "+-.INaefn"

/-- Whether a text has only bytes of written numbers. -/
def Numeric (t : Text) : Prop := ∀ b ∈ t, Text.isDigit b = true ∨ b ∈ numberMarks

namespace Numeric

variable {t u : Text}

theorem of_digits (h : ∀ b ∈ t, Text.isDigit b = true) : Numeric t := fun b hb => .inl (h b hb)

theorem of_marks (h : t.all numberMarks.contains = true) : Numeric t :=
  fun b hb => .inr (List.contains_iff_mem.mp (List.all_eq_true.mp h b hb))

theorem append (ht : Numeric t) (hu : Numeric u) : Numeric (t ++ u) :=
  List.forall_mem_append.mpr ⟨ht, hu⟩

theorem of_subset (ht : Numeric t) (h : ∀ b ∈ u, b ∈ t) : Numeric u := fun b hb => ht b (h b hb)

theorem ofNat (n : Nat) : Numeric (Text.ofNat n) := .of_digits fun _ => Text.isDigit_of_mem_ofNat

theorem zeros (n : Nat) : Numeric (Text.repeated n "0") := by
  refine .of_digits fun b hb => ?_
  obtain ⟨zero, hzero, hb⟩ := List.mem_flatten.mp hb
  rw [List.eq_of_mem_replicate hzero] at hb
  cases List.mem_singleton.mp hb
  rfl

end Numeric

variable {t : Text}

theorem numeric_shortestDigits (x : Binary64) : Numeric x.shortestDigits.1 := by
  refine (Numeric.ofNat (x.firstGrid 17 (x.nearby 0).leadingExponent).1).of_subset fun b hb => ?_
  have hmem := List.dropWhile_subset _ (List.mem_reverse.mp hb)
  exact List.mem_reverse.mp hmem

theorem numeric_pointed (h : Numeric t) : Numeric (pointed t) := by
  rcases t with _ | ⟨d, _ | ⟨e, rest⟩⟩
  · exact h
  · exact h
  · have hpoint : Numeric [46] := .of_marks (by decide)
    rw [Numeric, List.forall_mem_cons] at h
    exact List.forall_mem_cons.mpr ⟨h.1, hpoint.append h.2⟩

theorem numeric_exponentText (e : Int) : Numeric (exponentText e) := by
  have hmark : Numeric (Text.ofString (if e < 0 then "e-" else "e+")) := by
    split <;> exact .of_marks (by decide)
  exact (hmark.append (.zeros _)).append (.ofNat _)

theorem numeric_positional (h : Numeric t) (e : Int) : Numeric (positional t e) := by
  cases e with
  | negSucc k =>
    have hpoint : Numeric [46] := .of_marks (by decide)
    have hlead : Numeric "0." := List.forall_mem_cons.mpr ⟨.inl rfl, hpoint⟩
    exact (hlead.append (.zeros k)).append h
  | ofNat k =>
    have hwhole : Numeric (t.take (k + 1) ++ Text.repeated (k + 1 - t.length) "0") :=
      (h.of_subset fun b hb => List.mem_of_mem_take hb).append (.zeros _)
    have hpoint : Numeric "." := .of_marks (by decide)
    rw [positional]
    split
    · exact hwhole
    · exact (hwhole.append hpoint).append (h.of_subset fun b hb => List.mem_of_mem_drop hb)

/-- A number is written with the bytes of numbers. -/
theorem numeric_text (x : Binary64) : Numeric x.text := by
  have hmagnitude : Numeric x.magnitudeText := by
    rw [magnitudeText]
    split
    · exact .ofNat 0
    · have hdigits := numeric_shortestDigits x
      dsimp only
      split
      · exact numeric_positional hdigits _
      · exact (numeric_pointed hdigits).append (numeric_exponentText _)
  rw [text]
  split
  · exact .of_marks (by decide)
  split
  · split <;> exact .of_marks (by decide)
  · refine .append ?_ hmagnitude
    split <;> exact .of_marks (by decide)

end PeakLang.Binary64
