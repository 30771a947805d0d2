import PeakLang.Proofs.Token.Stretch

namespace PeakLang

open Rune (Whole encode)

namespace Stretch

variable {s : Stretch} {stretches : List Stretch}

theorem isCut_of_legal (h : s.token.kind ≠ .illegal) : s.isCut = false := by
  rw [isCut, Token.isUnclosed, beq_eq_false_iff_ne.mpr h, Bool.false_and, Bool.false_and]

theorem flatMap_counted (h : ∀ s ∈ stretches, s.isCut = false) :
    stretches.flatMap counted = stretches.flatMap runes :=
  List.flatMap_congr fun s hs => counted_of_isCut_eq_false (h s hs)

/-- Whether the stretch is read up to a line end that cuts a string off, and with it. -/
def cutsLine (s : Stretch) : Bool := s.stop.any Rune.endsLine

end Stretch

namespace Scan

section Legal

variable {s : Stretch} {ahead : List Rune}

/-- A legal token takes the runes that spell it. -/
theorem Spans.legal (h : Spans s ahead) (heof : s.token.kind ≠ .eof)
    (hillegal : s.token.kind ≠ .illegal) : s.token.literal = encode s.text ∧ s.stop = [] := by
  cases h with
  | eof hkind => exact absurd hkind heof
  | word hkind hliteral hline hstop => exact ⟨hliteral, hstop⟩
  | stray r hkind => exact absurd hkind hillegal
  | unclosed inside hkind => exact absurd hkind hillegal

/-- The end of the source takes nothing. -/
theorem Spans.of_eof (h : Spans s ahead) (heof : s.token.kind = .eof) :
    s.runes = s.gap ∧ head ahead = nul := by
  cases h with
  | eof hkind hliteral htext hstop hahead =>
    refine ⟨?_, hahead⟩
    rw [Stretch.runes, htext, hstop, List.append_nil, List.append_nil]
  | word hkind => exact absurd heof hkind.1
  | stray r hkind | unclosed inside hkind =>
    rw [heof] at hkind
    cases hkind

/-- The stretches of a source whose tokens are all legal: each is a gap and the text of its token, and
the token stands behind the runes before it. -/
theorem tokenize_legal {source : Text} (hlegal : ∀ t ∈ Token.tokenize source, t.kind ≠ .illegal) :
    ∃ words last rest, Token.tokenize source = (words ++ [last]).map Stretch.token ∧
      Rune.decode source = words.flatMap Stretch.runes ++ last.gap ++ rest ∧ head rest = nul ∧
      last.token.kind = .eof ∧
      (∀ s ∈ words, s.token.kind ≠ .eof ∧ s.token.literal = encode s.text ∧ s.stop = []) ∧
      ∀ before s after, words ++ [last] = before ++ s :: after →
        IsGap (s.token.kind == .eof) (encode s.gap) ∧
          s.token.pos = Pos.after (encode (before.flatMap Stretch.runes ++ s.gap)) := by
  obtain ⟨words, last, rest, htokens, hrunes, heof, hwords, hsplits⟩ := tokenize_stretches source
  rw [htokens] at hlegal
  have hillegal : ∀ s ∈ words ++ [last], s.token.kind ≠ .illegal := fun s hs =>
    hlegal s.token (List.mem_map_of_mem hs)
  obtain ⟨hlast, hend⟩ := (hsplits words last [] rfl).spans.of_eof heof
  refine ⟨words, last, rest, htokens, ?_, hend, heof, ?_, ?_⟩
  · rw [hrunes, List.flatMap_append, List.flatMap_singleton, hlast]
  · intro s hs
    obtain ⟨before, after, hsplit⟩ := List.append_of_mem hs
    have hstands := hsplits before s (after ++ [last]) (by simp [hsplit])
    exact ⟨hwords s hs, hstands.spans.legal (hwords s hs) (hillegal s (List.mem_append_left _ hs))⟩
  · intro before s after hsplit
    have hstands := hsplits before s after hsplit
    have hcounted : before.flatMap Stretch.counted = before.flatMap Stretch.runes := by
      apply Stretch.flatMap_counted
      intro q hq
      apply Stretch.isCut_of_legal
      apply hillegal
      rw [hsplit]
      exact List.mem_append_left _ hq
    refine ⟨hstands.isGap, ?_⟩
    rw [hstands.pos, hcounted]

/-- Reading a source without NUL stops at its end only. -/
theorem eq_nil_of_head_eq_nul {source : Text} (hzero : 0 ∉ source) {runes rest : List Rune}
    (h : Rune.decode source = runes ++ rest) (hrest : head rest = nul) : rest = [] := by
  cases rest with
  | nil => rfl
  | cons r rest =>
    have hbytes : r.bytes = [0] := Rune.bytes_of_char (by decide) hrest
    have hsource := Rune.encode_decode source
    rw [h, Rune.encode_append, Rune.encode_cons, hbytes] at hsource
    rw [← hsource] at hzero
    exact absurd (by simp) hzero

end Legal

section Cut

variable {s : Stretch} {ahead : List Rune}

/-- A line end that cuts a string off is the only one that is not counted. -/
theorem Spans.countP_runes (h : Spans s ahead) :
    s.runes.countP Rune.endsLine =
      s.counted.countP Rune.endsLine + if s.cutsLine then 1 else 0 := by
  have hblank : Rune.endsLine (.scalar ' ') = false := rfl
  have hstop : s.stop.countP Rune.endsLine =
      (if s.isCut then [.scalar ' '] else s.stop).countP Rune.endsLine +
        if s.cutsLine then 1 else 0 := by
    rw [Stretch.isCut, Stretch.cutsLine]
    obtain ⟨hclosed, hstop⟩ | ⟨hunclosed, ⟨hstop, -⟩ | ⟨r, hstop, -⟩⟩ := h.stop_cases
    · simp [hclosed, hstop]
    · simp [hunclosed, hstop, hblank]
    · cases hr : r.endsLine with
      | true | false => simp [hunclosed, hstop, hr, hblank]
  rw [Stretch.runes, Stretch.counted, Stretch.line, List.countP_append, List.countP_append,
    List.countP_append, List.countP_append, hstop]
  omega

theorem countP_flatMap_runes {stretches : List Stretch}
    (h : ∀ s ∈ stretches, ∃ ahead, Spans s ahead) :
    (stretches.flatMap Stretch.runes).countP Rune.endsLine =
      (stretches.flatMap Stretch.counted).countP Rune.endsLine +
        stretches.countP Stretch.cutsLine := by
  induction stretches with
  | nil => rfl
  | cons s stretches ih =>
    obtain ⟨⟨ahead, hs⟩, hmore⟩ := List.forall_mem_cons.mp h
    rw [List.flatMap_cons, List.flatMap_cons, List.countP_append, List.countP_append,
      List.countP_cons, hs.countP_runes, ih hmore]
    omega

/-- Where the token of a stretch stands after other stretches. Each string that is cut off counts as
if a blank stood where its line, or the source, ends. So lines are counted short by the strings that
their line ends cut off; columns are right if no string is cut off before, or if a line starts after
the last string that is. -/
structure Placed (before : List Stretch) (s : Stretch) : Prop where
  pos : s.token.pos = Pos.after (encode (before.flatMap Stretch.counted ++ s.gap))
  line : s.token.pos.line + before.countP Stretch.cutsLine =
    1 + (encode (before.flatMap Stretch.runes ++ s.gap)).count 10
  column : ∀ far near, before = far ++ near → (∀ q ∈ near, q.isCut = false) →
    far = [] ∨ 10 ∈ encode (near.flatMap Stretch.runes ++ s.gap) →
      s.token.pos.column = (Pos.after (encode (before.flatMap Stretch.runes ++ s.gap))).column

theorem Stands.placed {before : List Stretch} (h : Stands before s ahead)
    (hbefore : ∀ q ∈ before, ∃ ahead, Spans q ahead) : Placed before s := by
  refine ⟨h.pos, ?_, ?_⟩
  · have hlines := countP_flatMap_runes hbefore
    have hline : s.token.pos.line =
        1 + (encode (before.flatMap Stretch.counted ++ s.gap)).count 10 := congrArg Pos.line h.pos
    rw [hline, (Stretch.whole_counted h.whole).count_lineFeed, h.whole.count_lineFeed,
      List.countP_append, List.countP_append, hlines]
    omega
  · rintro far near rfl hnear hline
    have hsame : near.flatMap Stretch.counted = near.flatMap Stretch.runes :=
      Stretch.flatMap_counted hnear
    rw [h.pos, List.flatMap_append, List.flatMap_append, hsame]
    obtain rfl | hline := hline
    · rfl
    · simp only [Pos.after, List.append_assoc, Rune.encode_append (far.flatMap _),
        Text.lastLine_append_of_mem hline]

end Cut

end Scan

namespace Token

open Scan (IsGap Spans Placed)

section Joined

/-- The text of tokens with a gap before each. -/
def joined (words : List (Text × Token)) : Text := words.flatMap fun w => w.1 ++ w.2.literal

/-- The token of a stretch, with the text of the gap before it. -/
def ofStretch (s : Stretch) : Text × Token := (encode s.gap, s.token)

theorem joined_ofStretch {stretches : List Stretch}
    (h : ∀ s ∈ stretches, s.token.kind ≠ .eof ∧ s.token.literal = encode s.text ∧ s.stop = []) :
    joined (stretches.map ofStretch) = encode (stretches.flatMap Stretch.runes) := by
  induction stretches with
  | nil => rfl
  | cons s stretches ih =>
    obtain ⟨⟨-, hliteral, hstop⟩, hmore⟩ := List.forall_mem_cons.mp h
    have hfirst : encode s.runes = encode s.gap ++ s.token.literal := by
      rw [Stretch.runes, hstop, List.append_nil, Rune.encode_append, hliteral]
    rw [List.flatMap_cons, Rune.encode_append, hfirst, ← ih hmore]
    rfl

/-- A source without NUL whose tokens are all legal is the texts of its tokens, one after another, with
gaps before, between and behind them; and each token stands at the line and the column that are counted
in the text before it. -/
theorem tokenize_joined (source : Text) (hzero : 0 ∉ source)
    (hlegal : ∀ t ∈ tokenize source, t.kind ≠ .illegal) :
    ∃ words lastGap last, tokenize source = words.map Prod.snd ++ [last] ∧ last.kind = .eof ∧
      (∀ w ∈ words, w.2.kind ≠ .eof ∧ IsGap false w.1) ∧ IsGap true lastGap ∧
      source = joined words ++ lastGap ∧
      (∀ before w after, words = before ++ w :: after → w.2.pos = Pos.after (joined before ++ w.1)) ∧
      last.pos = Pos.after source := by
  obtain ⟨words, last, rest, htokens, hrunes, hend, heof, hwords, hsplits⟩ := Scan.tokenize_legal hlegal
  have hrest := Scan.eq_nil_of_head_eq_nul hzero hrunes hend
  have hsource : source = encode (words.flatMap Stretch.runes ++ last.gap) := by
    rw [← Rune.encode_decode source, hrunes, hrest, List.append_nil]
  obtain ⟨hlastGap, hlastPos⟩ := hsplits words last [] rfl
  rw [heof] at hlastGap
  refine ⟨words.map ofStretch, encode last.gap, last.token, ?_, heof, ?_, hlastGap, ?_, ?_, ?_⟩
  · rw [htokens, List.map_append, List.map_map]
    rfl
  · intro w hw
    obtain ⟨s, hs, rfl⟩ := List.mem_map.mp hw
    obtain ⟨before, after, hsplit⟩ := List.append_of_mem hs
    obtain ⟨hgap, -⟩ := hsplits before s (after ++ [last]) (by simp [hsplit])
    rw [beq_eq_false_iff_ne.mpr (hwords s hs).1] at hgap
    exact ⟨(hwords s hs).1, hgap⟩
  · rw [joined_ofStretch hwords, ← Rune.encode_append]
    exact hsource
  · intro before w after hsplit
    obtain ⟨far, more, rfl, rfl, hmore⟩ := List.map_eq_append_iff.mp hsplit
    obtain ⟨s, near, rfl, rfl, -⟩ := List.map_eq_cons_iff.mp hmore
    obtain ⟨-, hpos⟩ := hsplits far s (near ++ [last]) (by simp)
    rw [joined_ofStretch fun q hq => hwords q (List.mem_append_left _ hq)]
    rw [Rune.encode_append] at hpos
    exact hpos
  · rw [hsource]
    exact hlastPos

/-- Words, an invalid byte in a comment, a character past ASCII, and a comment that the source ends
with. -/
private def brewed : Text :=
  [108, 101, 116, 32, 0xC3, 0xA9, 32, 61, 47, 47, 0xFF, 10, 9, 34, 0xC3, 0xA9, 34, 13, 43, 49, 47, 47]

theorem tokenize_joined_brewed :
    (0 ∉ brewed ∧ ∀ t ∈ tokenize brewed, t.kind ≠ .illegal) ∧
      ∃ words lastGap last, tokenize brewed = words.map Prod.snd ++ [last] ∧
        brewed = joined words ++ lastGap ∧ IsGap true lastGap ∧ last.pos = ⟨2, 10⟩ := by
  have hzero : 0 ∉ brewed := by decide
  have hlegal : ∀ t ∈ tokenize brewed, t.kind ≠ .illegal := by decide +kernel
  obtain ⟨words, lastGap, last, htokens, -, -, hgap, hsource, -, hpos⟩ :=
    tokenize_joined brewed hzero hlegal
  refine ⟨⟨hzero, hlegal⟩, words, lastGap, last, htokens, hsource, hgap, ?_⟩
  rw [hpos]
  decide +kernel

end Joined

section Unclosed

/-- The tokens of a source take it up to its end or its first NUL, gap by gap, and each stands where
the text before it is counted to end: a string that the end of its line cuts off is counted as if its
line went on. -/
theorem tokenize_placed (source : Text) :
    ∃ stretches rest, tokenize source = stretches.map Stretch.token ∧
      Rune.decode source = stretches.flatMap Stretch.runes ++ rest ∧ Scan.head rest = Scan.nul ∧
      ∀ before s after, stretches = before ++ s :: after →
        IsGap (s.token.kind == .eof) (encode s.gap) ∧
          Spans s (after.flatMap Stretch.runes ++ rest) ∧ Placed before s := by
  obtain ⟨words, last, rest, htokens, hrunes, heof, -, hsplits⟩ := Scan.tokenize_stretches source
  have hend := ((hsplits words last [] rfl).spans.of_eof heof).2
  refine ⟨words ++ [last], rest, htokens, hrunes, hend, fun before s after hsplit => ?_⟩
  have hstands := hsplits before s after hsplit
  refine ⟨hstands.isGap, hstands.spans, hstands.placed fun q hq => ?_⟩
  obtain ⟨far, near, rfl⟩ := List.append_of_mem hq
  exact ⟨_, (hsplits far q (near ++ s :: after) (by rw [hsplit]; simp)).spans⟩

/-- A name on the line after a string that is not closed is placed on the line of the string. -/
theorem pos_after_unclosed :
    (⟨.ident, [120], ⟨1, 6⟩⟩ : Token) ∈ tokenize [34, 97, 98, 99, 10, 120] ∧
      Pos.after [34, 97, 98, 99, 10] = ⟨2, 1⟩ := by
  decide +kernel

end Unclosed

end Token

end PeakLang
