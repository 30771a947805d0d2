import PeakLang.Proofs.Token.Position
import PeakLang.Proofs.Token.Tokenize

namespace PeakLang.Scan

open Rune (Whole encode)

/-- Texts that stand between tokens: blanks, and comments up to the end of their line. The comment at
the end of the source needs no line end. -/
inductive IsGap : (last : Bool) → Text → Prop
  | nil {last : Bool} : IsGap last []
  | blank {last : Bool} {b : UInt8} {rest : Text} (hb : b ∈ [32, 9, 13, 10]) (hrest : IsGap last rest) :
    IsGap last (b :: rest)
  | comment {last : Bool} {body rest : Text} (hbody : 10 ∉ body) (hrest : IsGap last rest) :
    IsGap last (47 :: 47 :: (body ++ 10 :: rest))
  | lastComment {body : Text} (hbody : 10 ∉ body) : IsGap true (47 :: 47 :: body)

variable {r : Rune} {rest : List Rune} {pos : Pos}

theorem bytes_of_isBlank (h : isBlank r.char = true) : ∃ b ∈ [32, 9, 13, 10], r.bytes = [b] := by
  simp only [isBlank, Bool.or_eq_true, beq_iff_eq] at h
  obtain ((h | h) | h) | h := h
  · exact ⟨32, by decide, Rune.bytes_of_char (by decide) h⟩
  · exact ⟨9, by decide, Rune.bytes_of_char (by decide) h⟩
  · exact ⟨10, by decide, Rune.bytes_of_char (by decide) h⟩
  · exact ⟨13, by decide, Rune.bytes_of_char (by decide) h⟩

theorem skipGap_past (h : isBlank r.char = true) :
    skipGap false (r :: rest) pos = skipGap false rest (pos.past r) := by
  rw [skipGap, if_pos h, Pos.past, Rune.endsLine]
  split <;> rfl

theorem skipGap_slashes {r' : Rune} (h : r.char = '/') (h' : r'.char = '/') :
    skipGap false (r :: r' :: rest) pos = skipGap true rest ((pos.past r).past r') := by
  have hblank : isBlank '/' = false := by decide
  have hline : ('/' == '\n') = false := by decide
  have hnul : ('/' == nul) = false := by decide
  have hhead : head (r' :: rest) = '/' := h'
  simp only [skipGap, Pos.past, Rune.endsLine, h, h', hhead, hblank, hline, hnul, beq_self_eq_true,
    Bool.and_true, Bool.false_eq_true, if_true, if_false]

/-- A comment is skipped up to the end of its line, or up to the end of the source. -/
theorem skipGap_comment (runes : List Rune) (pos : Pos) :
    ∃ body, (∀ r ∈ body, r.endsLine = false) ∧
      ((∃ r more, runes = body ++ r :: more ∧ r.endsLine = true ∧
          skipGap true runes pos = skipGap false more ((body ++ [r]).foldl Pos.past pos)) ∨
        ∃ more, runes = body ++ more ∧ head more = nul ∧
          skipGap true runes pos = ⟨more, body.foldl Pos.past pos⟩) := by
  induction runes generalizing pos with
  | nil => exact ⟨[], nofun, .inr ⟨[], rfl, rfl, rfl⟩⟩
  | cons r rest ih =>
    cases hline : r.endsLine with
    | true =>
      refine ⟨[], nofun, .inl ⟨r, rest, rfl, hline, ?_⟩⟩
      rw [skipGap, if_pos (show (r.char == '\n') = true from hline), List.nil_append, List.foldl_cons,
        List.foldl_nil, Pos.past, if_pos hline]
    | false =>
      have hchar : ¬ (r.char == '\n') = true := Bool.eq_false_iff.mp hline
      by_cases hnul : r.char = nul
      · refine ⟨[], nofun, .inr ⟨r :: rest, rfl, hnul, ?_⟩⟩
        rw [skipGap, if_neg hchar, if_pos (beq_iff_eq.mpr hnul), List.foldl_nil]
      · have hstep : skipGap true (r :: rest) pos = skipGap true rest (pos.past r) := by
          rw [skipGap, if_neg hchar, if_neg (fun h => hnul (beq_iff_eq.mp h)), Pos.past, hline,
            if_neg Bool.false_ne_true]
        obtain ⟨body, hbody, h⟩ := ih (pos.past r)
        refine ⟨r :: body, List.forall_mem_cons.mpr ⟨hline, hbody⟩, ?_⟩
        obtain ⟨r', more, rfl, hr', hskip⟩ | ⟨more, rfl, hmore, hskip⟩ := h
        · exact .inl ⟨r', more, rfl, hr', hstep.trans hskip⟩
        · exact .inr ⟨more, rfl, hmore, hstep.trans hskip⟩

theorem lineFeed_notMem_encode {runes : List Rune} (h : Whole runes)
    (hline : ∀ r ∈ runes, r.endsLine = false) : 10 ∉ encode runes := by
  intro hmem
  obtain ⟨r, hr, hbyte⟩ := List.mem_flatMap.mp hmem
  exact h.lineFeed_notMem_bytes hr (hline r hr) hbyte

/-- How skipping a gap goes on: it stops, or it is past one more piece of the gap, which may be the
comment at the end of the source. -/
inductive GapStep (runes : List Rune) (pos : Pos) : Prop
  | stop (hhead : head runes ≠ '\n') (h : skipGap false runes pos = ⟨runes, pos⟩)
  | further (piece more : List Rune) (hrunes : runes = piece ++ more) (hpiece : piece ≠ [])
    (h : skipGap false runes pos = skipGap false more (piece.foldl Pos.past pos))
    (hgap : ∀ last rest, IsGap last rest → IsGap last (encode piece ++ rest))
  | last (piece more : List Rune) (hrunes : runes = piece ++ more) (hmore : head more = nul)
    (h : skipGap false runes pos = ⟨more, piece.foldl Pos.past pos⟩) (hgap : IsGap true (encode piece))

theorem gapStep_comment {r' : Rune} (h : Whole rest) (hr : r.char = '/') (hr' : r'.char = '/') :
    GapStep (r :: r' :: rest) pos := by
  have hbytes : r.bytes = [47] := Rune.bytes_of_char (by decide) hr
  have hbytes' : r'.bytes = [47] := Rune.bytes_of_char (by decide) hr'
  obtain ⟨body, hbody, ⟨nl, more, rfl, hnl, hskip⟩ | ⟨more, rfl, hmore, hskip⟩⟩ :=
    skipGap_comment rest ((pos.past r).past r')
  case inl =>
    have hfree := lineFeed_notMem_encode h.of_prefix hbody
    have hencode : encode (r :: r' :: (body ++ [nl])) = 47 :: 47 :: (encode body ++ [10]) := by
      rw [Rune.encode_cons, Rune.encode_cons, Rune.encode_append, Rune.encode_cons, hbytes, hbytes',
        Rune.bytes_of_endsLine hnl]
      rfl
    refine .further (r :: r' :: (body ++ [nl])) more ?_ (List.cons_ne_nil _ _) ?_ ?_
    · rw [List.cons_append, List.cons_append, List.append_assoc, List.singleton_append]
    · rw [skipGap_slashes hr hr', hskip]
      rfl
    · intro last rest hgap
      rw [hencode, List.cons_append, List.cons_append, List.append_assoc, List.singleton_append]
      exact .comment hfree hgap
  case inr =>
    have hfree := lineFeed_notMem_encode h.of_prefix hbody
    refine .last (r :: r' :: body) more rfl hmore ?_ ?_
    · rw [skipGap_slashes hr hr', hskip]
      rfl
    · rw [Rune.encode_cons, Rune.encode_cons, hbytes, hbytes']
      exact .lastComment hfree

theorem skipGap_step {runes : List Rune} (h : Whole runes) (pos : Pos) : GapStep runes pos := by
  cases runes with
  | nil => exact .stop (by decide) rfl
  | cons r rest =>
    by_cases hblank : isBlank r.char = true
    case pos =>
      obtain ⟨b, hb, hbytes⟩ := bytes_of_isBlank hblank
      refine .further [r] rest rfl (List.cons_ne_nil _ _) (skipGap_past hblank) ?_
      intro last rest hgap
      rw [Rune.encode_cons, hbytes]
      exact .blank hb hgap
    case neg =>
      by_cases hslash : (r.char == '/' && head rest == '/') = true
      case pos =>
        rw [Bool.and_eq_true, beq_iff_eq, beq_iff_eq] at hslash
        obtain ⟨hr, hhead⟩ := hslash
        obtain ⟨r', more, rfl⟩ : ∃ r' more, rest = r' :: more :=
          List.exists_cons_of_ne_nil (ne_nil_of_head_ne (by rw [hhead]; decide))
        exact gapStep_comment h.tail.tail hr hhead
      case neg =>
        have hline : ¬ (r.char == '\n') = true := by
          intro hline
          rw [isBlank, hline, Bool.or_true, Bool.true_or] at hblank
          exact hblank rfl
        refine .stop (fun hhead => hline (beq_iff_eq.mpr hhead)) ?_
        rw [skipGap, if_neg hline, if_neg hblank, if_neg hslash]

/-- What is skipped before a token is a gap, and the token stands behind it. -/
theorem skipGap_isGap {runes : List Rune} (h : Whole runes) (pos : Pos) :
    ∃ gap, runes = gap ++ (skipGap false runes pos).ahead ∧
      (skipGap false runes pos).pos = gap.foldl Pos.past pos ∧
      IsGap (head (skipGap false runes pos).ahead == nul) (encode gap) ∧
      head (skipGap false runes pos).ahead ≠ '\n' := by
  generalize hsize : runes.length = size
  induction size using Nat.strongRecOn generalizing runes pos with
  | ind size ih =>
    cases skipGap_step h pos with
    | stop hhead hskip =>
      rw [hskip]
      exact ⟨[], rfl, rfl, .nil, hhead⟩
    | further piece more hrunes hpiece hskip hgap =>
      rw [hrunes] at h
      have hlength := List.length_pos_iff.mpr hpiece
      rw [hrunes, List.length_append] at hsize
      obtain ⟨gap, hmore, hpos, hisGap, hhead⟩ :=
        ih more.length (by omega) h.of_suffix (piece.foldl Pos.past pos) rfl
      rw [hskip]
      refine ⟨piece ++ gap, ?_, ?_, ?_, hhead⟩
      · rw [List.append_assoc, ← hmore, hrunes]
      · rw [hpos, List.foldl_append]
      · rw [Rune.encode_append]
        exact hgap _ _ hisGap
    | last piece more hrunes hmore hskip hgap =>
      rw [hskip]
      refine ⟨piece, hrunes, rfl, ?_, ?_⟩
      · rw [hmore]
        exact hgap
      · rw [hmore]
        decide

end PeakLang.Scan
