import PeakLang.Proofs.Token.Scan

namespace PeakLang.Scan

section Scalars

/-- A rune that is not read as the replacement character is a character. -/
theorem scalar_char {r : Rune} (h : r.char ≠ '�') : .scalar r.char = r := by
  cases r with
  | scalar c => rfl
  | stray b => exact absurd rfl h

variable {runes : List Rune}

theorem map_scalar_char (h : ∀ r ∈ runes, r.char ≠ '�') :
    (runes.map Rune.char).map .scalar = runes := by
  rw [List.map_map]
  refine (List.map_congr_left fun r hr => ?_).trans (List.map_id runes)
  exact scalar_char (h r hr)

theorem inWord_ne {c : Char} (h : inWord c = true) : c ≠ '�' := by
  rintro rfl
  exact absurd h (by decide +kernel)

theorem isDigit_of_mem_digits {r : Rune} (h : r ∈ digits runes) :
    isDigit r.char = true :=
  List.all_eq_true.mp (List.all_takeWhile (p := fun r : Rune => isDigit r.char)) r h

/-- The characters of a number. -/
theorem number_char {r : Rune} (h : r ∈ (number runes).1) :
    isDigit r.char = true ∨ r.char ∈ ['.', 'e', 'E', '+', '-'] := by
  rw [number_eq, List.mem_append, List.mem_append] at h
  obtain (h | h) | h := h
  case inl.inl => exact .inl (isDigit_of_mem_digits h)
  case inl.inr =>
    obtain hnil | ⟨point, more, hcons, hpoint, -⟩ := fraction_cases (afterDigits runes)
    · exact nomatch hnil ▸ h
    · rw [hcons] at h
      obtain rfl | h := List.mem_cons.mp h
      · exact .inr (by simp [hpoint])
      · exact .inl (isDigit_of_mem_digits h)
  case inr =>
    have hmark {c : Char} (hc : c = 'e' ∨ c = 'E') : c ∈ ['.', 'e', 'E', '+', '-'] := by
      obtain rfl | rfl := hc <;> decide
    have hsign {c : Char} (hc : c = '+' ∨ c = '-') : c ∈ ['.', 'e', 'E', '+', '-'] := by
      obtain rfl | rfl := hc <;> decide
    obtain hnil | ⟨mark, more, hm, -, hcons | ⟨sign, hs, hcons⟩⟩ :=
      exponent_cases (afterFraction (afterDigits runes))
    · exact nomatch hnil ▸ h
    · rw [hcons] at h
      obtain rfl | h := List.mem_cons.mp h
      · exact .inr (hmark hm)
      · exact .inl (isDigit_of_mem_digits h)
    · rw [hcons] at h
      obtain rfl | h := List.mem_cons.mp h
      · exact .inr (hmark hm)
      · obtain rfl | h := List.mem_cons.mp h
        · exact .inr (hsign hs)
        · exact .inl (isDigit_of_mem_digits h)

theorem number_char_ne {r : Rune} (h : r ∈ (number runes).1) :
    r.char ≠ '�' := by
  intro hchar
  obtain h | h := number_char h
  · rw [hchar] at h
    exact absurd h (by decide)
  · rw [hchar] at h
    exact absurd h (by decide)

end Scalars

section Lexical

/-- The tokens of these kinds are lexical whatever their text is. -/
theorem lexical_of_keyword {k : TokenKind} (h : k ∈ TokenKind.keywords) (literal : Text) (pos : Pos) :
    (⟨k, literal, pos⟩ : Token).Lexical := by
  cases k <;> first | exact absurd h (by decide) | trivial

theorem lexical_mark {c next : Char} {k : TokenKind} {both : Bool}
    (h : mark? c next = some (k, both)) (literal : Text) (pos : Pos) :
    (⟨k, literal, pos⟩ : Token).Lexical := by
  unfold mark? at h
  split at h
  case h_20 => exact nomatch h
  all_goals
    repeat' split at h
    all_goals
      cases h
      trivial

theorem lexical_word {runes : List Rune} (h : startsWord (head runes) = true) (pos : Pos) :
    (⟨TokenKind.ofWord (Rune.encode (runes.takeWhile fun r => inWord r.char)),
        Rune.encode (runes.takeWhile fun r => inWord r.char), pos⟩ : Token).Lexical := by
  obtain ⟨word, hword⟩ : ∃ word, runes.takeWhile (fun r => inWord r.char) = word := ⟨_, rfl⟩
  have hall : ∀ r ∈ word, inWord r.char = true := by
    rw [← hword]
    exact List.all_eq_true.mp List.all_takeWhile
  have hchars : (word.map Rune.char).map .scalar = word :=
    map_scalar_char fun r hr => inWord_ne (hall r hr)
  have hhead : ∃ c ∈ (word.map Rune.char).head?, startsWord c = true := by
    cases runes with
    | nil => exact absurd h (by decide)
    | cons r more =>
      have hr : inWord r.char = true := Bool.or_eq_true_iff.mpr (.inl h)
      rw [List.takeWhile_cons_of_pos (p := fun r : Rune => inWord r.char) hr] at hword
      rw [← hword]
      exact ⟨r.char, rfl, h⟩
  rw [hword]
  cases hfind : TokenKind.keywords.find? fun k => k.spelling? == some (Rune.encode word) with
  | some k =>
    rw [TokenKind.ofWord, hfind]
    exact lexical_of_keyword (List.mem_of_find?_eq_some hfind) _ _
  | none =>
    have hkind : TokenKind.ofWord (Rune.encode word) = .ident := by rw [TokenKind.ofWord, hfind]; rfl
    rw [hkind]
    refine ⟨word.map Rune.char, by rw [hchars], hhead, fun c hc => ?_, hkind⟩
    obtain ⟨r, hr, rfl⟩ := List.mem_map.mp hc
    exact hall r hr

theorem lexical_number {runes : List Rune} (h : isDigit (head runes) = true) (pos : Pos) :
    (⟨if (number runes).2 then .floatLit else .intLit, Rune.encode (number runes).1, pos⟩ :
      Token).Lexical := by
  have hchars : ((number runes).1.map Rune.char).map .scalar = (number runes).1 :=
    map_scalar_char fun r hr => number_char_ne hr
  have hhead : ∃ c ∈ ((number runes).1.map Rune.char).head?, isDigit c = true := by
    cases runes with
    | nil => exact absurd h (by decide)
    | cons r more =>
      rw [number_eq, digits_cons_of_pos h]
      exact ⟨r.char, rfl, h⟩
  have hnumber : Lexeme.IsNumber (number runes).2 (Rune.encode (number runes).1) :=
    ⟨(number runes).1.map Rune.char, by rw [hchars], hhead, by rw [hchars]; exact number_number runes⟩
  cases hfractional : (number runes).2 with
  | true | false =>
    rw [hfractional] at hnumber
    exact hnumber

end Lexical

section Strings

open StringLiteral (unescape)

/-- Neither a line end nor a NUL stands in what is read of a string. -/
theorem stringEnd_sound {escaped : Bool} {runes : List Rune} {count : Nat}
    (h : stringEnd escaped runes = .ok count ∨ stringEnd escaped runes = .error count) :
    ∀ r ∈ runes.take count, r.char ≠ '\n' ∧ r.char ≠ nul := by
  induction runes generalizing escaped count with
  | nil =>
    rw [List.take_nil]
    exact fun r hr => absurd hr List.not_mem_nil
  | cons r more ih =>
    rw [stringEnd] at h
    split at h
    case isTrue =>
      obtain h | h := h
      · cases h
      · cases h
        exact fun r hr => absurd hr List.not_mem_nil
    case isFalse hend =>
      rw [Bool.or_eq_true, beq_iff_eq, beq_iff_eq, not_or] at hend
      split at h
      case isTrue =>
        obtain h | h := h
        · cases h
          exact List.forall_mem_singleton.mpr hend
        · cases h
      case isFalse =>
        split at h
        case h_1 n hmore =>
          obtain h | h := h
          · cases h
            exact List.forall_mem_cons.mpr ⟨hend, ih (.inl hmore)⟩
          · cases h
        case h_2 n hmore =>
          obtain h | h := h
          · cases h
          · cases h
            exact List.forall_mem_cons.mpr ⟨hend, ih (.inr hmore)⟩

/-- A string that is not closed stops at a line end, at a NUL or at the end of the source. -/
theorem stringEnd_stop {escaped : Bool} {runes : List Rune} {count : Nat}
    (h : stringEnd escaped runes = .error count) :
    count ≤ runes.length ∧ ∀ r ∈ (runes.drop count).head?, r.char = '\n' ∨ r.char = nul := by
  induction runes generalizing escaped count with
  | nil =>
    cases h
    exact ⟨Nat.le_refl 0, nofun⟩
  | cons r more ih =>
    rw [stringEnd] at h
    split at h
    case isTrue hend =>
      cases h
      rw [Bool.or_eq_true, beq_iff_eq, beq_iff_eq] at hend
      refine ⟨Nat.zero_le _, fun r' hr' => ?_⟩
      obtain rfl := Option.some.inj hr'
      exact hend
    case isFalse =>
      split at h
      case isTrue => cases h
      case isFalse =>
        split at h
        case h_1 => cases h
        case h_2 n hmore =>
          cases h
          obtain ⟨hlength, hstop⟩ := ih hmore
          exact ⟨Nat.succ_le_succ hlength, hstop⟩

theorem escaped?_ne_zero {letter value : UInt8} (h : StringLiteral.escaped? letter = some value)
    (hletter : letter ≠ 0) : value ≠ 0 := by
  unfold StringLiteral.escaped? at h
  split at h
  case isTrue => cases h; decide
  case isFalse =>
    split at h
    case isTrue => cases h; decide
    case isFalse =>
      obtain ⟨-, h⟩ := Option.ite_none_right_eq_some.mp h
      cases h
      exact hletter

theorem zero_notMem_unescape {t : Text} (h : 0 ∉ t) : 0 ∉ unescape t := by
  fun_induction unescape t with
  | case1 | case2 => exact h
  | case3 b letter rest hslash value hvalue ih =>
    simp only [List.mem_cons, not_or] at h ⊢
    exact ⟨Ne.symm (escaped?_ne_zero hvalue (Ne.symm h.2.1)), ih h.2.2⟩
  | case4 b letter rest hslash hvalue ih =>
    simp only [List.mem_cons, not_or] at h ⊢
    exact ⟨h.1, h.2.1, ih h.2.2⟩
  | case5 b letter rest hslash ih =>
    rw [List.mem_cons, not_or] at h ⊢
    exact ⟨h.1, ih h.2⟩

theorem zero_notMem_decode {literal : Text} (h : 0 ∉ literal) : 0 ∉ StringLiteral.decode literal := by
  refine zero_notMem_unescape ?_
  unfold StringLiteral.body
  split
  · exact fun hmem => h (List.mem_of_mem_drop (List.dropLast_subset _ hmem))
  · exact h

end Strings

section Steps

/-- Whether runes can come from a source: only NUL holds the byte zero. -/
def Sourced (runes : List Rune) : Prop := ∀ r ∈ runes, r.char ≠ nul → 0 ∉ r.bytes

theorem sourced_decode (source : Text) : Sourced (Rune.decode source) := by
  intro r hr hchar
  refine Rune.zero_notMem_bytes hr fun hzero => hchar ?_
  have hchar : Char.ofNat r.char.toNat = r.char := Char.ofNat_toNat _
  rw [← hchar]
  exact congrArg Char.ofNat hzero

theorem skipGap_suffix (inComment : Bool) (runes : List Rune) (pos : Pos) :
    (skipGap inComment runes pos).ahead <:+ runes := by
  fun_induction skipGap inComment runes pos with
  | case1 | case3 | case8 => exact List.suffix_refl _
  | _ => exact List.IsSuffix.trans (by assumption) (List.suffix_cons _ _)

/-- One token: it is lexical, and takes at least one rune unless it is the end of the source. -/
structure Step (runes : List Rune) (t : Token) (c : Cursor) : Prop where
  lexical : t.Lexical
  suffix : c.ahead <:+ runes
  shorter : t.kind ≠ .eof → c.ahead.length < runes.length

variable {c : Cursor}

theorem Step.of_skip {t : Token} {count : Nat} (hlexical : t.Lexical)
    (h : t.kind ≠ .eof → 0 < count ∧ c.ahead ≠ []) : Step c.ahead t (c.skip count) := by
  refine ⟨hlexical, List.drop_suffix _ _, fun hkind => ?_⟩
  obtain ⟨hcount, hne⟩ := h hkind
  have hlength := List.length_pos_iff.mpr hne
  rw [Cursor.skip, List.length_drop]
  omega

theorem ne_nil_of_head_ne {runes : List Rune} (h : head runes ≠ nul) : runes ≠ [] := by
  rintro rfl
  exact h rfl

theorem lexical_string {runes : List Rune} {count : Nat} (hs : Sourced runes) (h : head runes = quote)
    (hend : stringEnd false (runes.drop 1) = .ok count) (pos : Pos) :
    (⟨.stringLit, Rune.encode (runes.take (count + 1)), pos⟩ : Token).Lexical := by
  refine zero_notMem_decode fun hzero => ?_
  obtain ⟨r, hr, hbyte⟩ := List.mem_flatMap.mp hzero
  refine hs r (List.mem_of_mem_take hr) ?_ hbyte
  cases runes with
  | nil => exact nomatch hr
  | cons first more =>
    rw [List.take_succ_cons] at hr
    obtain rfl | hr := List.mem_cons.mp hr
    · exact fun hnul => absurd (h.symm.trans hnul) (by decide)
    · exact (stringEnd_sound (.inl hend) r hr).2

theorem step_word (h : startsWord (head c.ahead) = true) :
    Step c.ahead (tokenAt c).1 (tokenAt c).2 := by
  have hne : c.ahead ≠ [] := ne_nil_of_head_ne (beq_eq_false_iff_ne.mp (startsWord_ne h (by decide)))
  rw [tokenAt_word h]
  refine .of_skip (lexical_word h c.pos) fun _ => ⟨?_, hne⟩
  obtain ⟨r, more, hahead⟩ := List.exists_cons_of_ne_nil hne
  rw [hahead] at h ⊢
  rw [List.takeWhile_cons_of_pos (p := fun r : Rune => inWord r.char)
    (Bool.or_eq_true_iff.mpr (.inl h))]
  exact Nat.succ_pos _

theorem step_number (h : isDigit (head c.ahead) = true) :
    Step c.ahead (tokenAt c).1 (tokenAt c).2 := by
  have hne : c.ahead ≠ [] := ne_nil_of_head_ne (beq_eq_false_iff_ne.mp (isDigit_ne h (by decide)))
  rw [tokenAt_number h]
  refine .of_skip (lexical_number h c.pos) fun _ => ⟨?_, hne⟩
  obtain ⟨r, more, hahead⟩ := List.exists_cons_of_ne_nil hne
  rw [hahead] at h ⊢
  rw [number_eq, digits_cons_of_pos h]
  exact Nat.succ_pos _

theorem tokenAt_step (hs : Sourced c.ahead) :
    Step c.ahead (tokenAt c).1 (tokenAt c).2 := by
  have hquoted (h : head c.ahead = quote) : c.ahead ≠ [] := ne_nil_of_head_ne (by rw [h]; decide)
  cases tokenCase c with
  | eof h =>
    rw [tokenAt_end h]
    exact .of_skip trivial fun h => absurd rfl h
  | string count h hend =>
    have hlength := List.length_pos_iff.mpr (hquoted h)
    rw [tokenAt_string h hend]
    refine .of_skip (lexical_string hs h hend c.pos) fun _ => ⟨?_, hquoted h⟩
    rw [List.length_take]
    omega
  | unclosed count h hend =>
    rw [tokenAt_unclosed h hend]
    exact .of_skip trivial fun _ => ⟨Nat.succ_pos _, hquoted h⟩
  | word h => exact step_word h
  | number h => exact step_number h
  | mark k both hnul h =>
    have hlength := List.length_pos_iff.mpr (ne_nil_of_head_ne hnul)
    rw [tokenAt_mark h]
    refine .of_skip (lexical_mark h _ _) fun _ => ⟨?_, ne_nil_of_head_ne hnul⟩
    rw [List.length_take]
    split <;> omega
  | illegal hnul h =>
    rw [h]
    exact .of_skip trivial fun _ => ⟨Nat.succ_pos _, ne_nil_of_head_ne hnul⟩

theorem next_step (hs : Sourced c.ahead) : Step c.ahead (next c).1 (next c).2 := by
  have hgap := skipGap_suffix false c.ahead c.pos
  obtain ⟨hlexical, hsuffix, hshorter⟩ :=
    tokenAt_step (c := skipGap false c.ahead c.pos) fun r hr => hs r (hgap.subset hr)
  exact ⟨hlexical, hsuffix.trans hgap, fun hkind => Nat.lt_of_lt_of_le (hshorter hkind) hgap.length_le⟩

/-- A list of lexical tokens that ends with the end of the source. -/
def Complete (tokens : List Token) : Prop :=
  ∃ words last, tokens = words ++ [last] ∧ last.kind = .eof ∧
    ∀ t ∈ words, t.kind ≠ .eof ∧ t.Lexical

theorem upToEnd_complete {limit : Nat} (hs : Sourced c.ahead) (hlimit : c.ahead.length < limit) :
    Complete (upToEnd limit c) := by
  induction limit generalizing c with
  | zero => exact absurd hlimit (Nat.not_lt_zero _)
  | succ limit ih =>
    obtain ⟨hlexical, hsuffix, hshorter⟩ := next_step hs
    change Complete (if (next c).1.kind == .eof then [(next c).1]
      else (next c).1 :: upToEnd limit (next c).2)
    split
    case isTrue hkind => exact ⟨[], _, rfl, beq_iff_eq.mp hkind, nofun⟩
    case isFalse hkind =>
      have hkind : (next c).1.kind ≠ .eof := fun h => hkind (beq_iff_eq.mpr h)
      have hlength := hshorter hkind
      obtain ⟨words, last, htokens, hlast, hwords⟩ :=
        ih (c := (next c).2) (fun r hr => hs r (hsuffix.subset hr)) (by omega)
      refine ⟨(next c).1 :: words, last, ?_, hlast, ?_⟩
      · rw [htokens, List.cons_append]
      · exact List.forall_mem_cons.mpr ⟨⟨hkind, hlexical⟩, hwords⟩

/-- The tokens of a source. -/
theorem tokenize_complete (source : Text) : Complete (Token.tokenize source) :=
  upToEnd_complete (sourced_decode source) (Nat.lt_succ_self _)

end Steps

end PeakLang.Scan
