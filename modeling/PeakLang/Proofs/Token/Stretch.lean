import PeakLang.Proofs.Token.Gap

namespace PeakLang

/-- Whether a token is a string that is not closed. -/
def Token.isUnclosed (t : Token) : Bool := t.kind == .illegal && t.literal == Scan.unterminated

/-- A token of a source with the gap before it. A string that is not closed is `text`, and `stop` is
the line end or the NUL that it stops at, which is read with it. -/
structure Stretch where
  gap : List Rune
  text : List Rune
  stop : List Rune
  token : Token

namespace Stretch

/-- The runes of the source that the stretch takes. -/
def runes (s : Stretch) : List Rune := s.gap ++ (s.text ++ s.stop)

/-- Whether the end of the line, or of the source, cuts a string off. -/
def isCut (s : Stretch) : Bool := s.token.isUnclosed && s.stop.all Rune.endsLine

/-- The runes that the token is counted as: a blank stands where a string is cut off. -/
def line (s : Stretch) : List Rune := s.text ++ if s.isCut then [.scalar ' '] else s.stop

/-- The runes that the stretch is counted as. -/
def counted (s : Stretch) : List Rune := s.gap ++ s.line

open Rune (Whole)

theorem counted_of_isCut_eq_false {s : Stretch} (h : s.isCut = false) : s.counted = s.runes := by
  rw [counted, line, h, if_neg Bool.false_ne_true, runes]

theorem whole_append_counted {front more : List Rune} {stretches : List Stretch}
    (h : Whole (front ++ (stretches.flatMap runes ++ more))) :
    Whole (front ++ (stretches.flatMap counted ++ more)) := by
  induction stretches generalizing front with
  | nil => exact h
  | cons s stretches ih =>
    rw [List.flatMap_cons, List.append_assoc] at h ⊢
    rw [← List.append_assoc]
    apply ih
    cases hcut : s.isCut with
    | false =>
      rw [counted_of_isCut_eq_false hcut, List.append_assoc]
      exact h
    | true =>
      have hcounted : front ++ s.counted ++ (stretches.flatMap runes ++ more) =
          (front ++ (s.gap ++ s.text)) ++ .scalar ' ' :: (stretches.flatMap runes ++ more) := by
        simp [counted, line, hcut]
      rw [runes, ← List.append_assoc s.gap, List.append_assoc (s.gap ++ s.text),
        ← List.append_assoc front] at h
      rw [hcounted]
      exact h.of_prefix.join (h.of_suffix.of_suffix) (show (32 : UInt8) < 0x80 by decide)

/-- What the stretches of a source are counted as could be a source too. -/
theorem whole_counted {more : List Rune} {stretches : List Stretch}
    (h : Whole (stretches.flatMap runes ++ more)) : Whole (stretches.flatMap counted ++ more) := by
  rw [← List.nil_append (stretches.flatMap counted ++ more)]
  exact whole_append_counted h

end Stretch

namespace Scan

open Rune (Whole encode)

section Tokens

/-- What the token of a stretch takes of the runes ahead of it, before `ahead`. A legal token takes the
runes that spell it; a character that starts no token is taken alone; a string that is not closed is
taken with the line end or the NUL that it stops at, or up to the end of the source. -/
inductive Spans (s : Stretch) (ahead : List Rune) : Prop
  | eof (hkind : s.token.kind = .eof) (hliteral : s.token.literal = []) (htext : s.text = [])
    (hstop : s.stop = []) (hahead : head ahead = nul)
  | word (hkind : s.token.kind ≠ .eof ∧ s.token.kind ≠ .illegal)
    (hliteral : s.token.literal = encode s.text) (hline : ∀ r ∈ s.text, r.endsLine = false)
    (hstop : s.stop = [])
  | stray (r : Rune) (hkind : s.token.kind = .illegal)
    (hliteral : s.token.literal = String.utf8EncodeChar r.char) (htext : s.text = [r])
    (hline : r.endsLine = false) (hstop : s.stop = [])
  | unclosed (inside : List Rune) (hkind : s.token.kind = .illegal)
    (hliteral : s.token.literal = unterminated) (htext : s.text = closing :: inside)
    (hline : ∀ r ∈ inside, r.endsLine = false ∧ r.char ≠ nul)
    (hstop : s.stop = [] ∧ ahead = [] ∨ ∃ r, s.stop = [r] ∧ (r.endsLine = true ∨ r.char = nul))

theorem isUnclosed_iff {t : Token} :
    t.isUnclosed = true ↔ t.kind = .illegal ∧ t.literal = unterminated := by
  rw [Token.isUnclosed, Bool.and_eq_true, beq_iff_eq, beq_iff_eq]

theorem utf8EncodeChar_ne_unterminated (c : Char) : String.utf8EncodeChar c ≠ unterminated := by
  intro h
  have hlength := congrArg List.length h
  rw [String.length_utf8EncodeChar] at hlength
  have hsize := c.utf8Size_le_four
  have hlong : unterminated.length = 19 := rfl
  omega

namespace Spans

variable {s : Stretch} {ahead : List Rune}

/-- Only a string that is not closed stops at something, and it stops at one rune at most. -/
theorem stop_cases (h : Spans s ahead) :
    s.token.isUnclosed = false ∧ s.stop = [] ∨
      s.token.isUnclosed = true ∧
        (s.stop = [] ∧ ahead = [] ∨ ∃ r, s.stop = [r] ∧ (r.endsLine = true ∨ r.char = nul)) := by
  rw [← Bool.not_eq_true, isUnclosed_iff]
  cases h with
  | eof hkind hliteral htext hstop hahead =>
    refine .inl ⟨fun hunclosed => ?_, hstop⟩
    rw [hkind] at hunclosed
    cases hunclosed.1
  | word hkind hliteral hline hstop => exact .inl ⟨fun hunclosed => hkind.2 hunclosed.1, hstop⟩
  | stray r hkind hliteral htext hline hstop =>
    refine .inl ⟨fun hunclosed => ?_, hstop⟩
    exact utf8EncodeChar_ne_unterminated r.char (hliteral.symm.trans hunclosed.2)
  | unclosed inside hkind hliteral htext hline hstop => exact .inr ⟨⟨hkind, hliteral⟩, hstop⟩

theorem line_of_closed (h : Spans s ahead) (hclosed : s.token.isUnclosed = false) :
    s.line = s.text := by
  have hstop : s.stop = [] := by
    obtain ⟨-, hstop⟩ | ⟨hunclosed, -⟩ := h.stop_cases
    · exact hstop
    · rw [hclosed] at hunclosed
      cases hunclosed
  rw [Stretch.line, Stretch.isCut, hclosed, hstop, Bool.false_and, if_neg Bool.false_ne_true,
    List.append_nil]

/-- A string that is not closed is counted as one column more than its text. -/
theorem line_of_unclosed (h : Spans s ahead) (hunclosed : s.token.isUnclosed = true) :
    ∃ r, s.line = s.text ++ [r] ∧ r.endsLine = false := by
  rw [Stretch.line, Stretch.isCut, hunclosed, Bool.true_and]
  obtain ⟨hclosed, -⟩ | ⟨-, ⟨hstop, -⟩ | ⟨r, hstop, hr⟩⟩ := h.stop_cases
  · rw [hunclosed] at hclosed
    cases hclosed
  · rw [hstop]
    exact ⟨.scalar ' ', rfl, rfl⟩
  · rw [hstop, List.all_cons, List.all_nil, Bool.and_true]
    cases hline : r.endsLine with
    | true => exact ⟨.scalar ' ', rfl, rfl⟩
    | false => exact ⟨r, rfl, hline⟩

/-- What a token is counted as stands on one line. -/
theorem endsLine_of_mem_line (h : Spans s ahead) : ∀ r ∈ s.line, r.endsLine = false := by
  have htext : ∀ r ∈ s.text, r.endsLine = false := by
    cases h with
    | eof hkind hliteral htext =>
      rw [htext]
      exact fun r hr => absurd hr List.not_mem_nil
    | word hkind hliteral hline => exact hline
    | stray r hkind hliteral htext hline =>
      rw [htext]
      exact List.forall_mem_singleton.mpr hline
    | unclosed inside hkind hliteral htext hline =>
      rw [htext]
      exact List.forall_mem_cons.mpr ⟨rfl, fun r hr => (hline r hr).1⟩
  cases hunclosed : s.token.isUnclosed with
  | false =>
    rw [h.line_of_closed hunclosed]
    exact htext
  | true =>
    obtain ⟨r, hline, hr⟩ := h.line_of_unclosed hunclosed
    rw [hline]
    exact List.forall_mem_append.mpr ⟨htext, List.forall_mem_singleton.mpr hr⟩

end Spans

/-- What a token is read as part of: a stretch takes the runes up to `rest`, its token stands at the
cursor, and reading goes on behind what the token is counted as. -/
structure Reads (c : Cursor) (s : Stretch) (rest : List Rune) : Prop where
  token : s.token = (tokenAt c).1
  pos : s.token.pos = c.pos
  ahead : c.ahead = s.text ++ s.stop ++ rest
  spans : Spans s rest
  next : s.token.kind ≠ .eof → (tokenAt c).2 = ⟨rest, s.line.foldl Pos.past c.pos⟩

variable {c : Cursor} (gap : List Rune)

theorem reads_word {k : TokenKind} {text : List Rune}
    (h : tokenAt c = (⟨k, encode text, c.pos⟩, c.skip text.length)) (htext : text <+: c.ahead)
    (hkind : k ≠ .eof ∧ k ≠ .illegal) (hline : ∀ r ∈ text, r.endsLine = false) :
    ∃ s rest, s.gap = gap ∧ Reads c s rest := by
  obtain ⟨rest, hrest⟩ := htext
  have hspans : Spans ⟨gap, text, [], ⟨k, encode text, c.pos⟩⟩ rest := .word hkind rfl hline rfl
  have hclosed : Token.isUnclosed ⟨k, encode text, c.pos⟩ = false := by
    rw [← Bool.not_eq_true, isUnclosed_iff]
    exact fun hunclosed => hkind.2 hunclosed.1
  refine ⟨⟨gap, text, [], ⟨k, encode text, c.pos⟩⟩, rest, rfl, ⟨?_, rfl, ?_, hspans, fun _ => ?_⟩⟩
  · rw [h]
  · rw [List.append_nil, hrest]
  · rw [h, hspans.line_of_closed hclosed, Pos.foldl_past hline, Cursor.skip, ← hrest, List.drop_left]

theorem reads_stray {r : Rune} {more : List Rune} (hahead : c.ahead = r :: more)
    (h : tokenAt c = (⟨.illegal, String.utf8EncodeChar r.char, c.pos⟩, c.skip 1))
    (hline : r.endsLine = false) : ∃ s rest, s.gap = gap ∧ Reads c s rest := by
  have hspans : Spans ⟨gap, [r], [], ⟨.illegal, String.utf8EncodeChar r.char, c.pos⟩⟩ more :=
    .stray r rfl rfl rfl hline rfl
  have hclosed : Token.isUnclosed ⟨.illegal, String.utf8EncodeChar r.char, c.pos⟩ = false := by
    rw [← Bool.not_eq_true, isUnclosed_iff]
    exact fun hunclosed => utf8EncodeChar_ne_unterminated r.char hunclosed.2
  refine ⟨⟨gap, [r], [], _⟩, more, rfl, ⟨by rw [h], rfl, hahead, hspans, fun _ => ?_⟩⟩
  rw [h, hspans.line_of_closed hclosed, Pos.foldl_past (List.forall_mem_singleton.mpr hline),
    Cursor.skip, hahead]
  rfl

/-- A string that is not closed: its inside, what it stops at, and what follows. -/
theorem stringEnd_split {escaped : Bool} {runes : List Rune} {count : Nat}
    (h : stringEnd escaped runes = .error count) :
    ∃ inside stop rest, runes = inside ++ (stop ++ rest) ∧ inside.length = count ∧
      runes.drop (count + 1) = rest ∧ (∀ r ∈ inside, r.endsLine = false ∧ r.char ≠ nul) ∧
      (stop = [] ∧ rest = [] ∨ ∃ r, stop = [r] ∧ (r.endsLine = true ∨ r.char = nul)) := by
  obtain ⟨hlength, hstop⟩ := stringEnd_stop h
  have hinside : ∀ r ∈ runes.take count, r.endsLine = false ∧ r.char ≠ nul := by
    intro r hr
    obtain ⟨hline, hnul⟩ := stringEnd_sound (.inr h) r hr
    exact ⟨beq_eq_false_iff_ne.mpr hline, hnul⟩
  have hrunes : runes.take count ++ runes.drop count = runes := List.take_append_drop _ _
  have hcount : (runes.take count).length = count := by
    rw [List.length_take, Nat.min_eq_left hlength]
  rw [← List.drop_drop]
  cases hrest : runes.drop count with
  | nil =>
    rw [hrest] at hrunes
    exact ⟨runes.take count, [], [], hrunes.symm, hcount, rfl, hinside, .inl ⟨rfl, rfl⟩⟩
  | cons r rest =>
    rw [hrest] at hrunes hstop
    have hr : r.endsLine = true ∨ r.char = nul := (hstop r rfl).imp_left beq_iff_eq.mpr
    exact ⟨runes.take count, [r], rest, hrunes.symm, hcount, rfl, hinside, .inr ⟨r, rfl, hr⟩⟩

theorem reads_unclosed {count : Nat} (hquote : head c.ahead = quote)
    (hend : stringEnd false (c.ahead.drop 1) = .error count) :
    ∃ s rest, s.gap = gap ∧ Reads c s rest := by
  have htoken := tokenAt_unclosed hquote hend
  obtain ⟨inside, stop, rest, hdrop, hcount, hrest, hinside, hstop⟩ := stringEnd_split hend
  have hahead : c.ahead = closing :: c.ahead.drop 1 := by
    obtain ⟨r, more, hahead⟩ : ∃ r more, c.ahead = r :: more :=
      List.exists_cons_of_ne_nil (ne_nil_of_head_ne (by rw [hquote]; decide))
    rw [hahead] at hquote
    have hchar : r.char = quote := hquote
    rw [hahead, closing, ← hchar, scalar_char (by rw [hchar]; decide)]
    rfl
  obtain ⟨s, hs⟩ : ∃ s : Stretch,
    s = ⟨gap, closing :: inside, stop, ⟨.illegal, unterminated, c.pos⟩⟩ := ⟨_, rfl⟩
  have hspans : Spans s rest := by
    rw [hs]
    exact .unclosed inside rfl rfl rfl hinside hstop
  refine ⟨s, rest, by rw [hs], ⟨?_, by rw [hs], ?_, hspans, fun _ => ?_⟩⟩
  · rw [htoken, hs]
  · rw [hahead, hdrop, hs, List.cons_append, List.cons_append, List.append_assoc]
  · obtain ⟨last, hline, -⟩ := hspans.line_of_unclosed (by rw [hs]; rfl)
    have hlength : s.line.length = 1 + (count + 1) := by
      rw [hline, hs, List.length_append, List.length_cons, hcount, List.length_singleton]
      omega
    rw [htoken, Pos.foldl_past hspans.endsLine_of_mem_line, hlength, Cursor.skip, ← hrest,
      List.drop_drop, Nat.add_comm 1 (count + 1)]

/-- The characters of operators and delimiters, and the kinds that they are read as. -/
theorem mark?_cases {c next : Char} {k : TokenKind} {both : Bool}
    (h : mark? c next = some (k, both)) :
    c ≠ '\n' ∧ (both = true → next ≠ '\n' ∧ next ≠ nul) ∧ k ≠ .eof ∧
      (k = .illegal → both = false ∧ c = '!') := by
  unfold mark? at h
  split at h
  case h_20 => cases h
  all_goals
    simp only [Option.some.injEq] at h
    repeat' split at h
    all_goals
      cases h
      simp_all [nul]

theorem ofWord_cases (t : Text) : TokenKind.ofWord t ∈ TokenKind.ident :: TokenKind.keywords := by
  rw [TokenKind.ofWord]
  cases hfind : TokenKind.keywords.find? fun k => k.spelling? == some t with
  | none => exact List.mem_cons_self ..
  | some k => exact List.mem_cons_of_mem _ (List.mem_of_find?_eq_some hfind)

theorem endsLine_of_ne {p : Char → Bool} (hp : p '\n' = false) {r : Rune} (h : p r.char = true) :
    r.endsLine = false := by
  refine beq_eq_false_iff_ne.mpr fun hchar => ?_
  rw [hchar, hp] at h
  cases h

theorem reads_string {count : Nat} (hquote : head c.ahead = quote)
    (hend : stringEnd false (c.ahead.drop 1) = .ok count) : ∃ s rest, s.gap = gap ∧ Reads c s rest := by
  refine reads_word gap (tokenAt_string hquote hend) (List.take_prefix _ _) (by decide) ?_
  have hsound := stringEnd_sound (.inl hend)
  cases hahead : c.ahead with
  | nil =>
    rw [List.take_nil]
    exact fun r hr => absurd hr List.not_mem_nil
  | cons r more =>
    rw [hahead] at hquote hsound
    have hr : r.char = quote := hquote
    rw [List.take_succ_cons]
    refine List.forall_mem_cons.mpr ⟨?_, fun r hr => beq_eq_false_iff_ne.mpr (hsound r hr).1⟩
    rw [Rune.endsLine, hr]
    rfl

theorem reads_name (hword : startsWord (head c.ahead) = true) :
    ∃ s rest, s.gap = gap ∧ Reads c s rest := by
  have hkinds : ∀ k ∈ TokenKind.ident :: TokenKind.keywords, k ≠ .eof ∧ k ≠ .illegal := by decide
  refine reads_word gap (tokenAt_word hword) (List.takeWhile_prefix _) (hkinds _ (ofWord_cases _)) ?_
  intro r hr
  have hinWord := List.all_eq_true.mp List.all_takeWhile r hr
  exact endsLine_of_ne (by decide +kernel) hinWord

theorem reads_number (hdigit : isDigit (head c.ahead) = true) :
    ∃ s rest, s.gap = gap ∧ Reads c s rest := by
  refine reads_word gap (tokenAt_number hdigit) (number_isPrefix _) ?_ ?_
  · split <;> decide
  · intro r hr
    obtain hr | hr := number_char hr
    · exact endsLine_of_ne (by decide) hr
    · refine beq_eq_false_iff_ne.mpr fun hchar => ?_
      rw [hchar] at hr
      exact absurd hr (by decide)

theorem reads_mark {k : TokenKind} {both : Bool}
    (hmark : mark? (head c.ahead) (head (c.ahead.drop 1)) = some (k, both)) (hnul : head c.ahead ≠ nul) :
    ∃ s rest, s.gap = gap ∧ Reads c s rest := by
  obtain ⟨hline, hboth, heof, hillegal⟩ := mark?_cases hmark
  have htoken := tokenAt_mark hmark
  obtain ⟨r, more, hahead⟩ : ∃ r more, c.ahead = r :: more :=
    List.exists_cons_of_ne_nil (ne_nil_of_head_ne hnul)
  rw [hahead] at hline hboth hillegal
  have hr : r.endsLine = false := beq_eq_false_iff_ne.mpr hline
  by_cases hkind : k = .illegal
  case pos =>
    -- only a lone exclamation mark is read so
    obtain ⟨rfl, hchar⟩ := hillegal hkind
    have hscalar : Rune.scalar r.char = r := scalar_char (by rw [show r.char = '!' from hchar]; decide)
    have hbytes : encode [r] = String.utf8EncodeChar r.char := by
      rw [← hscalar]
      exact List.append_nil _
    refine reads_stray gap hahead ?_ hr
    rw [htoken, hkind, hahead, if_neg Bool.false_ne_true, ← hbytes]
    rfl
  case neg =>
    refine reads_word gap htoken (List.take_prefix _ _) ⟨heof, hkind⟩ ?_
    cases both with
    | false =>
      rw [hahead]
      exact List.forall_mem_singleton.mpr hr
    | true =>
      obtain ⟨hnext, hnul⟩ := hboth rfl
      obtain ⟨r', rest, rfl⟩ : ∃ r' rest, more = r' :: rest :=
        List.exists_cons_of_ne_nil (ne_nil_of_head_ne hnul)
      rw [hahead]
      exact List.forall_mem_cons.mpr
        ⟨hr, List.forall_mem_singleton.mpr (beq_eq_false_iff_ne.mpr hnext)⟩

/-- One token is read at a cursor that stands past the gap. -/
theorem tokenAt_reads (hhead : head c.ahead ≠ '\n') : ∃ s rest, s.gap = gap ∧ Reads c s rest := by
  cases tokenCase c with
  | eof h =>
    refine ⟨⟨gap, [], [], ⟨.eof, [], c.pos⟩⟩, c.ahead, rfl, ⟨?_, rfl, rfl, ?_, ?_⟩⟩
    · rw [tokenAt_end h]
    · exact .eof rfl rfl rfl rfl h
    · exact fun hkind => absurd rfl hkind
  | string count h hend => exact reads_string gap h hend
  | unclosed count h hend => exact reads_unclosed gap h hend
  | word h => exact reads_name gap h
  | number h => exact reads_number gap h
  | mark k both hnul h => exact reads_mark gap h hnul
  | illegal hnul h =>
    obtain ⟨r, more, hahead⟩ : ∃ r more, c.ahead = r :: more :=
      List.exists_cons_of_ne_nil (ne_nil_of_head_ne hnul)
    rw [hahead] at hhead h
    exact reads_stray gap hahead h (beq_eq_false_iff_ne.mpr hhead)

theorem Reads.kind_eq_eof {s : Stretch} {rest : List Rune} (h : Reads c s rest) :
    (s.token.kind == .eof) = (head c.ahead == nul) := by
  by_cases hnul : head c.ahead = nul
  · rw [h.token, tokenAt_end hnul, hnul]
    rfl
  · rw [beq_eq_false_iff_ne.mpr hnul, beq_eq_false_iff_ne]
    intro heof
    cases h.spans with
    | eof hkind hliteral htext hstop hahead =>
      rw [h.ahead, htext, hstop] at hnul
      exact hnul hahead
    | word hkind => exact hkind.1 heof
    | stray r hkind | unclosed inside hkind =>
      rw [heof] at hkind
      cases hkind

end Tokens

section Runs

/-- A stretch of a source that is read from a position on, before `ahead`: a gap, and a token that
stands behind it. -/
structure StretchFrom (pos : Pos) (s : Stretch) (ahead : List Rune) : Prop where
  isGap : IsGap (s.token.kind == .eof) (encode s.gap)
  spans : Spans s ahead
  pos_eq : s.token.pos = s.gap.foldl Pos.past pos

theorem next_stretch {c : Cursor} (h : Whole c.ahead) :
    ∃ s rest, s.token = (next c).1 ∧ c.ahead = s.runes ++ rest ∧ StretchFrom c.pos s rest ∧
      (s.token.kind ≠ .eof → (next c).2 = ⟨rest, s.counted.foldl Pos.past c.pos⟩) := by
  obtain ⟨gap, hgap, hpos, hisGap, hhead⟩ := skipGap_isGap h c.pos
  obtain ⟨s, rest, rfl, hreads⟩ := tokenAt_reads gap hhead
  refine ⟨s, rest, hreads.token, ?_, ⟨?_, hreads.spans, hreads.pos.trans hpos⟩, ?_⟩
  · rw [hgap, hreads.ahead, Stretch.runes, ← List.append_assoc]
  · rw [hreads.kind_eq_eof]
    exact hisGap
  · intro hkind
    rw [next, hreads.next hkind, hpos, Stretch.counted, List.foldl_append]

theorem upToEnd_succ (limit : Nat) (c : Cursor) :
    upToEnd (limit + 1) c =
      if (next c).1.kind == .eof then [(next c).1] else (next c).1 :: upToEnd limit (next c).2 := rfl

/-- Reading tokens takes a source apart into stretches, each read from where the one before it is
counted to end. -/
theorem upToEnd_stretches (limit : Nat) {c : Cursor} (h : Whole c.ahead) :
    ∃ stretches rest, upToEnd limit c = stretches.map Stretch.token ∧
      c.ahead = stretches.flatMap Stretch.runes ++ rest ∧
      ∀ before s after, stretches = before ++ s :: after →
        StretchFrom ((before.flatMap Stretch.counted).foldl Pos.past c.pos) s
          (after.flatMap Stretch.runes ++ rest) := by
  induction limit generalizing c with
  | zero =>
    refine ⟨[], c.ahead, rfl, rfl, fun before s after hsplit => ?_⟩
    exact absurd hsplit.symm (by simp)
  | succ limit ih =>
    obtain ⟨s, rest, htoken, hahead, hstretch, hnext⟩ := next_stretch h
    rw [upToEnd_succ, ← htoken]
    by_cases hkind : s.token.kind = .eof
    case pos =>
      refine ⟨[s], rest, ?_, ?_, fun before s' after hsplit => ?_⟩
      · rw [if_pos (beq_iff_eq.mpr hkind)]
        rfl
      · rw [List.flatMap_singleton, hahead]
      · obtain ⟨rfl, hafter⟩ | ⟨before, rfl, hmore⟩ := List.cons_eq_append_iff.mp hsplit
        · obtain ⟨rfl, rfl⟩ := List.cons.inj hafter
          exact hstretch
        · exact absurd hmore.symm (by simp)
    case neg =>
      rw [hahead] at h
      obtain ⟨more, rest', hmore, hrest, hsplits⟩ := ih (c := (next c).2) (by
        rw [hnext hkind]
        exact h.of_suffix)
      rw [hnext hkind] at hrest hsplits
      refine ⟨s :: more, rest', ?_, ?_, fun before s' after hsplit => ?_⟩
      · rw [if_neg (fun heof => hkind (beq_iff_eq.mp heof)), List.map_cons, hmore]
      · rw [hahead, List.flatMap_cons, List.append_assoc, ← hrest]
      · obtain ⟨rfl, hafter⟩ | ⟨before, rfl, hmore⟩ := List.cons_eq_append_iff.mp hsplit
        · obtain ⟨rfl, rfl⟩ := List.cons.inj hafter
          rw [← hrest]
          exact hstretch
        · have hlater := hsplits before s' after hmore
          rwa [List.flatMap_cons, List.foldl_append]

/-- How the token of a stretch stands in a source, after other stretches and before `ahead`. -/
structure Stands (before : List Stretch) (s : Stretch) (ahead : List Rune) : Prop where
  isGap : IsGap (s.token.kind == .eof) (encode s.gap)
  spans : Spans s ahead
  whole : Whole (before.flatMap Stretch.runes ++ s.gap)
  pos : s.token.pos = Pos.after (encode (before.flatMap Stretch.counted ++ s.gap))

theorem StretchFrom.stands {before : List Stretch} {s : Stretch} {ahead : List Rune}
    (h : StretchFrom ((before.flatMap Stretch.counted).foldl Pos.past .start) s ahead)
    (hwhole : Whole (before.flatMap Stretch.runes ++ s.gap)) : Stands before s ahead := by
  have hcounted := Stretch.whole_counted hwhole
  refine ⟨h.isGap, h.spans, hwhole, ?_⟩
  rw [← List.nil_append (before.flatMap _ ++ s.gap)] at hcounted ⊢
  rw [Pos.after_encode_append hcounted, List.foldl_append, h.pos_eq]
  rfl

/-- The stretches of a source. The last one, and no other, is the end of the source. -/
theorem tokenize_stretches (source : Text) :
    ∃ words last rest, Token.tokenize source = (words ++ [last]).map Stretch.token ∧
      Rune.decode source = (words ++ [last]).flatMap Stretch.runes ++ rest ∧
      last.token.kind = .eof ∧ (∀ s ∈ words, s.token.kind ≠ .eof) ∧
      ∀ before s after, words ++ [last] = before ++ s :: after →
        Stands before s (after.flatMap Stretch.runes ++ rest) := by
  have hwhole := Rune.whole_decode source
  obtain ⟨stretches, rest, htokens, hrunes, hsplits⟩ :=
    upToEnd_stretches ((Rune.decode source).length + 1) (c := .ofText source) hwhole
  obtain ⟨tokens, eof, hcomplete, heof, hwords⟩ := tokenize_complete source
  have hmap : stretches.map Stretch.token = tokens ++ [eof] := htokens.symm.trans hcomplete
  obtain ⟨words, more, rfl, rfl, hlast⟩ := List.map_eq_append_iff.mp hmap
  obtain ⟨last, rfl, rfl⟩ := List.map_eq_singleton_iff.mp hlast
  refine ⟨words, last, rest, htokens, hrunes, heof, fun s hs => ?_, fun before s after hsplit => ?_⟩
  · exact (hwords s.token (List.mem_map_of_mem hs)).1
  · refine (hsplits before s after hsplit).stands ?_
    rw [show Rune.decode source = _ from hrunes, hsplit, List.flatMap_append, List.flatMap_cons,
      Stretch.runes, List.append_assoc, List.append_assoc, List.append_assoc,
      ← List.append_assoc] at hwhole
    exact hwhole.of_prefix

end Runs

end Scan

end PeakLang
