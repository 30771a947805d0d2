import PeakLang.Proofs.Token.Tokenize

namespace PeakLang

namespace Pos

variable {p q r : Pos}

theorem precedes_iff :
    p.precedes q = true ↔ p.line < q.line ∨ p.line = q.line ∧ p.column < q.column := by
  simp [precedes]

theorem precedes_eq_false_iff :
    p.precedes q = false ↔ q.line < p.line ∨ q.line = p.line ∧ q.column ≤ p.column := by
  rw [← Bool.not_eq_true, precedes_iff]
  omega

theorem precedes_irrefl (p : Pos) : p.precedes p = false :=
  precedes_eq_false_iff.mpr (.inr ⟨rfl, Int.le_refl _⟩)

theorem precedes_asymm (h : p.precedes q = true) : q.precedes p = false := by
  rw [precedes_iff] at h
  rw [precedes_eq_false_iff]
  omega

/-- A line and a column that are counted from one. -/
structure Counted (p : Pos) : Prop where
  line : 1 ≤ p.line
  column : 1 ≤ p.column

/-- Reading may get from one position to another: it goes forward, and goes on counting from one. -/
structure LeadsTo (p q : Pos) : Prop where
  order : q.precedes p = false
  counted : p.Counted → q.Counted

namespace LeadsTo

theorem refl (p : Pos) : p.LeadsTo p := ⟨precedes_irrefl p, id⟩

theorem trans (h : p.LeadsTo q) (h' : q.LeadsTo r) : p.LeadsTo r := by
  refine ⟨?_, fun hp => h'.counted (h.counted hp)⟩
  have horder := precedes_eq_false_iff.mp h.order
  have horder' := precedes_eq_false_iff.mp h'.order
  rw [precedes_eq_false_iff]
  omega

theorem rightBy (p : Pos) (count : Nat) : p.LeadsTo (p.rightBy count) := by
  constructor
  · rw [precedes_eq_false_iff]
    exact .inr ⟨rfl, Int.le_add_of_nonneg_right (Int.natCast_nonneg count)⟩
  · intro hp
    refine ⟨hp.line, Int.le_trans hp.column ?_⟩
    exact Int.le_add_of_nonneg_right (Int.natCast_nonneg count)

theorem right (p : Pos) : p.LeadsTo p.right := rightBy p 1

theorem nextLine (p : Pos) : p.LeadsTo p.nextLine := by
  constructor
  · rw [precedes_eq_false_iff]
    exact .inl (Int.lt_succ p.line)
  · intro hp
    exact ⟨Int.le_add_one hp.line, Int.le_refl 1⟩

/-- What is reached from a place further right stands after the place itself. -/
theorem precedes_of_rightBy {count : Nat} (h : (p.rightBy count).LeadsTo q) (hcount : 0 < count) :
    p.precedes q = true := by
  have horder := precedes_eq_false_iff.mp h.order
  simp only [Pos.rightBy] at horder
  rw [precedes_iff]
  omega

end LeadsTo

end Pos

namespace Scan

theorem skipGap_leadsTo (inComment : Bool) (runes : List Rune) (pos : Pos) :
    pos.LeadsTo (skipGap inComment runes pos).pos := by
  fun_induction skipGap inComment runes pos with
  | case1 | case3 | case8 => exact .refl _
  | case2 | case5 => exact .trans (.nextLine _) (by assumption)
  | case4 | case6 | case7 => exact .trans (.right _) (by assumption)

/-- A token stands at the cursor, and reading goes on some runes to the right of it. -/
theorem tokenAt_pos (c : Cursor) :
    (tokenAt c).1.pos = c.pos ∧ ∃ count, (tokenAt c).2 = c.skip count := by
  cases tokenCase c with
  | eof h =>
    rw [tokenAt_end h]
    exact ⟨rfl, _, rfl⟩
  | string count h hend =>
    rw [tokenAt_string h hend]
    exact ⟨rfl, _, rfl⟩
  | unclosed count h hend =>
    rw [tokenAt_unclosed h hend]
    exact ⟨rfl, _, rfl⟩
  | word h =>
    rw [tokenAt_word h]
    exact ⟨rfl, _, rfl⟩
  | number h =>
    rw [tokenAt_number h]
    exact ⟨rfl, _, rfl⟩
  | mark k both hnul h =>
    rw [tokenAt_mark h]
    exact ⟨rfl, _, rfl⟩
  | illegal hnul h =>
    rw [h]
    exact ⟨rfl, _, rfl⟩

/-- The next token stands where the gap ends; unless it is the end of the source, what is read next
stands after it. -/
theorem next_pos {c : Cursor} (hs : Sourced c.ahead) :
    c.pos.LeadsTo (next c).1.pos ∧ ((next c).1.kind ≠ .eof →
      ∀ q, (next c).2.pos.LeadsTo q → c.pos.LeadsTo q ∧ (next c).1.pos.precedes q = true) := by
  have hgap := skipGap_leadsTo false c.ahead c.pos
  have hsuffix := skipGap_suffix false c.ahead c.pos
  have hstep := tokenAt_step (c := skipGap false c.ahead c.pos) fun r hr => hs r (hsuffix.subset hr)
  obtain ⟨hpos, count, hskip⟩ := tokenAt_pos (skipGap false c.ahead c.pos)
  rw [next, hpos]
  refine ⟨hgap, fun hkind q hq => ?_⟩
  have hshorter := hstep.shorter hkind
  rw [hskip] at hshorter hq
  have hcount : 0 < count := by
    rw [Cursor.skip, List.length_drop] at hshorter
    omega
  exact ⟨hgap.trans (.trans (.rightBy _ count) hq), hq.precedes_of_rightBy hcount⟩

theorem upToEnd_ordered (limit : Nat) {c : Cursor} (hs : Sourced c.ahead) :
    (∀ t ∈ upToEnd limit c, c.pos.LeadsTo t.pos) ∧
      (upToEnd limit c).Pairwise fun t t' => t.pos.precedes t'.pos = true := by
  induction limit generalizing c with
  | zero => exact ⟨nofun, .nil⟩
  | succ limit ih =>
    obtain ⟨hfirst, hafter⟩ := next_pos hs
    have hsuffix := (next_step hs).suffix
    obtain ⟨hrest, hordered⟩ := ih (c := (next c).2) fun r hr => hs r (hsuffix.subset hr)
    simp only [upToEnd]
    split
    case isTrue => exact ⟨List.forall_mem_singleton.mpr hfirst, List.pairwise_singleton _ _⟩
    case isFalse hkind =>
      have hkind : (next c).1.kind ≠ .eof := fun h => hkind (beq_iff_eq.mpr h)
      constructor
      · refine List.forall_mem_cons.mpr ⟨hfirst, fun t ht => ?_⟩
        exact (hafter hkind t.pos (hrest t ht)).1
      · refine .cons (fun t ht => ?_) hordered
        exact (hafter hkind t.pos (hrest t ht)).2

end Scan

namespace Token

/-- Each token of a source stands after the tokens before it. -/
theorem tokenize_ordered (source : Text) :
    (tokenize source).Pairwise fun t t' => t.pos.precedes t'.pos = true :=
  (Scan.upToEnd_ordered _ (Scan.sourced_decode source)).2

/-- The lines and columns of tokens are counted from one. -/
theorem tokenize_counted (source : Text) : ∀ t ∈ tokenize source, t.pos.Counted := by
  intro t ht
  have hstart : Pos.start.Counted := ⟨Int.le_refl 1, Int.le_refl 1⟩
  exact ((Scan.upToEnd_ordered _ (Scan.sourced_decode source)).1 t ht).counted hstart

/-- No two tokens of a source stand at the same position. -/
theorem tokenize_nodup (source : Text) : ((tokenize source).map Token.pos).Nodup := by
  refine List.pairwise_map.mpr ((tokenize_ordered source).imp fun {t t'} h heq => ?_)
  rw [heq, Pos.precedes_irrefl] at h
  exact Bool.false_ne_true h

end Token

end PeakLang
