import PeakLang.Proofs.Text.Rune
import PeakLang.Proofs.Token.Lexeme
import PeakLang.Proofs.Token.Number

namespace PeakLang.Scan

section Chars

theorem startsWord_of_isDigit {c : Char} (h : isDigit c = true) : startsWord c = false := by
  have hcode : 48 ≤ c.toNat ∧ c.toNat ≤ 57 := by
    simpa [isDigit, Char.le_def, UInt32.le_iff_toNat_le] using h
  have hupper : c.isUpper = false := by
    change decide (65 ≤ c.val ∧ c.val ≤ 90) = false
    rw [decide_eq_false_iff_not, UInt32.le_iff_toNat_le, UInt32.le_iff_toNat_le]
    change ¬(65 ≤ c.toNat ∧ c.toNat ≤ 90)
    omega
  have hlower : c.isLower = false := by
    change (decide (97 ≤ c.val) && decide (c.val ≤ 122)) = false
    rw [← Bool.decide_and, decide_eq_false_iff_not, UInt32.le_iff_toNat_le, UInt32.le_iff_toNat_le]
    change ¬(97 ≤ c.toNat ∧ c.toNat ≤ 122)
    omega
  have halpha : c.isAlpha = false := by
    change (c.isUpper || c.isLower) = false
    rw [hupper, hlower, Bool.or_false]
  have hunderscore : c ≠ '_' := by
    rintro rfl
    exact absurd hcode (by decide)
  rw [startsWord, Letter.isLetter, if_pos (by omega), halpha,
    beq_eq_false_iff_ne.mpr hunderscore, Bool.or_false]

/-- No operator or delimiter starts as a word, a number or a string does. -/
theorem mark?_eq_none {c next : Char}
    (h : (startsWord c || isDigit c || c == quote || c == nul) = true) : mark? c next = none := by
  unfold mark?
  split <;> first | rfl | exact absurd h (by decide)

theorem startsWord_ne {c d : Char} (h : startsWord c = true) (hd : startsWord d = false) :
    (c == d) = false := by
  refine beq_eq_false_iff_ne.mpr ?_
  rintro rfl
  exact nomatch h.symm.trans hd

theorem isDigit_ne {c d : Char} (h : isDigit c = true) (hd : isDigit d = false) : (c == d) = false := by
  refine beq_eq_false_iff_ne.mpr ?_
  rintro rfl
  exact nomatch h.symm.trans hd

end Chars

section TokenAt

variable {c : Cursor}

theorem tokenAt_mark {k : TokenKind} {both : Bool}
    (h : mark? (head c.ahead) (head (c.ahead.drop 1)) = some (k, both)) :
    tokenAt c =
      (⟨k, Rune.encode (c.ahead.take (if both then 2 else 1)), c.pos⟩,
        c.skip (c.ahead.take (if both then 2 else 1)).length) := by
  rw [tokenAt, h]
  cases both <;> rfl

theorem tokenAt_end (h : head c.ahead = nul) : tokenAt c = (⟨.eof, [], c.pos⟩, c.skip 1) := by
  rw [tokenAt, h, mark?_eq_none (by decide)]
  rfl

theorem tokenAt_word (h : startsWord (head c.ahead) = true) :
    tokenAt c =
      (⟨TokenKind.ofWord (Rune.encode (c.ahead.takeWhile fun r => inWord r.char)),
          Rune.encode (c.ahead.takeWhile fun r => inWord r.char), c.pos⟩,
        c.skip (c.ahead.takeWhile fun r => inWord r.char).length) := by
  rw [tokenAt, mark?_eq_none (by simp [h])]
  simp only [startsWord_ne h (d := nul) (by decide), startsWord_ne h (d := quote) (by decide), h,
    Bool.false_eq_true, if_false, if_true]

theorem tokenAt_number (h : isDigit (head c.ahead) = true) :
    tokenAt c =
      (⟨if (number c.ahead).2 then .floatLit else .intLit, Rune.encode (number c.ahead).1, c.pos⟩,
        c.skip (number c.ahead).1.length) := by
  rw [tokenAt, mark?_eq_none (by simp [h])]
  simp only [isDigit_ne h (d := nul) (by decide), isDigit_ne h (d := quote) (by decide), h,
    startsWord_of_isDigit h, Bool.false_eq_true, if_false, if_true]

theorem tokenAt_string {count : Nat} (h : head c.ahead = quote)
    (hend : stringEnd false (c.ahead.drop 1) = .ok count) :
    tokenAt c =
      (⟨.stringLit, Rune.encode (c.ahead.take (count + 1)), c.pos⟩,
        c.skip (c.ahead.take (count + 1)).length) := by
  have hnul : (quote == nul) = false := by decide
  rw [tokenAt, h, mark?_eq_none (by decide)]
  simp only [hnul, hend, beq_self_eq_true, Bool.false_eq_true, if_false, if_true]

theorem tokenAt_unclosed {count : Nat} (h : head c.ahead = quote)
    (hend : stringEnd false (c.ahead.drop 1) = .error count) :
    tokenAt c = (⟨.illegal, unterminated, c.pos⟩, c.skip (count + 2)) := by
  have hnul : (quote == nul) = false := by decide
  rw [tokenAt, h, mark?_eq_none (by decide)]
  simp only [hnul, hend, beq_self_eq_true, Bool.false_eq_true, if_false, if_true]

theorem tokenAt_illegal (hmark : mark? (head c.ahead) (head (c.ahead.drop 1)) = none)
    (hnul : head c.ahead ≠ nul) (hquote : head c.ahead ≠ quote)
    (hword : startsWord (head c.ahead) = false) (hdigit : isDigit (head c.ahead) = false) :
    tokenAt c = (⟨.illegal, String.utf8EncodeChar (head c.ahead), c.pos⟩, c.skip 1) := by
  rw [tokenAt, hmark]
  simp only [beq_eq_false_iff_ne.mpr hnul, beq_eq_false_iff_ne.mpr hquote, hword, hdigit,
    Bool.false_eq_true, if_false]

/-- The kinds of tokens that can start at a cursor, with what tells them apart. -/
inductive TokenCase (c : Cursor) : Prop
  | eof (h : head c.ahead = nul)
  | string (count : Nat) (h : head c.ahead = quote)
    (hend : stringEnd false (c.ahead.drop 1) = .ok count)
  | unclosed (count : Nat) (h : head c.ahead = quote)
    (hend : stringEnd false (c.ahead.drop 1) = .error count)
  | word (h : startsWord (head c.ahead) = true)
  | number (h : isDigit (head c.ahead) = true)
  | mark (k : TokenKind) (both : Bool) (hnul : head c.ahead ≠ nul)
    (h : mark? (head c.ahead) (head (c.ahead.drop 1)) = some (k, both))
  | illegal (hnul : head c.ahead ≠ nul)
    (h : tokenAt c = (⟨.illegal, String.utf8EncodeChar (head c.ahead), c.pos⟩, c.skip 1))

theorem tokenCase (c : Cursor) : TokenCase c := by
  by_cases hnul : head c.ahead = nul
  · exact .eof hnul
  by_cases hquote : head c.ahead = quote
  · cases hend : stringEnd false (c.ahead.drop 1) with
    | ok count => exact .string count hquote hend
    | error count => exact .unclosed count hquote hend
  cases hword : startsWord (head c.ahead) with
  | true => exact .word hword
  | false =>
    cases hdigit : isDigit (head c.ahead) with
    | true => exact .number hdigit
    | false =>
      cases hmark : mark? (head c.ahead) (head (c.ahead.drop 1)) with
      | some mark => exact .mark mark.1 mark.2 hnul hmark
      | none => exact .illegal hnul (tokenAt_illegal hmark hnul hquote hword hdigit)

end TokenAt

section Gaps

theorem skipGap_blank {r : Rune} (h : isBlank r.char = true) (rest : List Rune) (pos : Pos) :
    ∃ pos', skipGap false (r :: rest) pos = skipGap false rest pos' := by
  rw [skipGap, if_pos h]
  split
  case isTrue => exact ⟨pos.nextLine, rfl⟩
  case isFalse => exact ⟨pos.right, rfl⟩

theorem next_blank {r : Rune} (h : isBlank r.char = true) (rest : List Rune) (pos : Pos) :
    ∃ pos', next ⟨r :: rest, pos⟩ = next ⟨rest, pos'⟩ := by
  obtain ⟨pos', hskip⟩ := skipGap_blank h rest pos
  exact ⟨pos', congrArg tokenAt hskip⟩

/-- Where no gap starts, the next token starts. -/
theorem next_eq_tokenAt (runes : List Rune) (hblank : isBlank (head runes) = false)
    (hslash : (head runes == '/' && head runes.tail == '/') = false) (pos : Pos) :
    next ⟨runes, pos⟩ = tokenAt ⟨runes, pos⟩ := by
  cases runes with
  | nil => rfl
  | cons r rest =>
    have hnewline : (r.char == '\n') = false := by
      simp only [isBlank, Bool.or_eq_false_iff] at hblank
      exact hblank.1.2
    refine congrArg tokenAt ?_
    change (if r.char == '\n' then _ else if isBlank r.char then _ else
      if r.char == '/' && head rest == '/' then _ else _) = _
    rw [hnewline, if_neg Bool.false_ne_true, show isBlank r.char = false from hblank,
      if_neg Bool.false_ne_true, show (r.char == '/' && head rest == '/') = false from hslash,
      if_neg Bool.false_ne_true]

theorem isBlank_of_startsWord {c : Char} (h : startsWord c = true) : isBlank c = false := by
  simp only [isBlank, Bool.or_eq_false_iff]
  refine ⟨⟨⟨?_, ?_⟩, ?_⟩, ?_⟩ <;> exact startsWord_ne h (by decide)

theorem isBlank_of_isDigit {c : Char} (h : isDigit c = true) : isBlank c = false := by
  simp only [isBlank, Bool.or_eq_false_iff]
  refine ⟨⟨⟨?_, ?_⟩, ?_⟩, ?_⟩ <;> exact isDigit_ne h (by decide)

end Gaps

section Words

variable {rest : List Rune} (pos : Pos)

theorem next_word {cs : List Char} (hstart : ∃ c ∈ cs.head?, startsWord c = true)
    (hword : ∀ c ∈ cs, inWord c = true) (hrest : inWord (head rest) = false) :
    ∃ pos', next ⟨cs.map .scalar ++ rest, pos⟩ =
      (⟨TokenKind.ofWord (Rune.encode (cs.map .scalar)), Rune.encode (cs.map .scalar), pos⟩,
        ⟨rest, pos'⟩) := by
  obtain ⟨c, hc, hstart⟩ := hstart
  have hhead : head (cs.map .scalar ++ rest) = c := by
    obtain ⟨cs, rfl⟩ : ∃ more, cs = c :: more := List.head?_eq_some_iff.mp hc
    rfl
  have hwhole : (cs.map Rune.scalar ++ rest).takeWhile (fun r => inWord r.char) = cs.map .scalar := by
    rw [List.takeWhile_append_of_pos, takeWhile_eq_nil hrest, List.append_nil]
    intro r hr
    obtain ⟨c', hc', rfl⟩ := List.mem_map.mp hr
    exact hword c' hc'
  rw [next_eq_tokenAt _ (hhead ▸ isBlank_of_startsWord hstart)
    (by rw [hhead, startsWord_ne hstart (by decide), Bool.false_and]),
    tokenAt_word (by rw [hhead]; exact hstart)]
  simp only [hwhole, Cursor.skip, List.drop_left]
  exact ⟨_, rfl⟩

theorem next_number {runes : List Rune} {fractional : Bool} (hstart : isDigit (head runes) = true)
    (hnumber : number runes = (runes, fractional)) (hword : inWord (head rest) = false)
    (hpoint : head rest = '.' → isDigit (head rest.tail) = false) :
    ∃ pos', next ⟨runes ++ rest, pos⟩ =
      (⟨if fractional then .floatLit else .intLit, Rune.encode runes, pos⟩, ⟨rest, pos'⟩) := by
  have hhead : isDigit (head (runes ++ rest)) = true := by
    rw [head_append (by decide) (Bool.or_eq_false_iff.mp hword).2]
    exact hstart
  have hslash : (head (runes ++ rest) == '/') = false := isDigit_ne hhead (by decide)
  rw [next_eq_tokenAt (runes ++ rest) (isBlank_of_isDigit hhead) (by rw [hslash, Bool.false_and]),
    tokenAt_number (c := ⟨runes ++ rest, pos⟩) hhead]
  simp only [number_append hnumber hword hpoint, Cursor.skip, List.drop_left]
  exact ⟨_, rfl⟩

end Words

section Strings

open StringLiteral (escape)

def closing : Rune := .scalar quote

/-- Whether runes are the inside of a string, which goes on up to a closing quote after them. -/
def Inside (runes : List Rune) : Prop :=
  ∀ rest, stringEnd false (runes ++ closing :: rest) = .ok (runes.length + 1)

theorem Inside.plain {r : Rune} {runes : List Rune} (h : Inside runes)
    (hr : (r.char == '\n' || r.char == nul) = false) (hquote : (r.char == quote) = false)
    (hbackslash : (r.char == backslash) = false) : Inside (r :: runes) := by
  intro rest
  simp only [List.cons_append, stringEnd, hr, hquote, hbackslash, Bool.and_false,
    Bool.false_eq_true, if_false, h rest, List.length_cons]

theorem Inside.escaped {r : Rune} {runes : List Rune} (h : Inside runes)
    (hr : (r.char == '\n' || r.char == nul) = false) :
    Inside (.scalar backslash :: r :: runes) := by
  intro rest
  have hbackslash : (backslash == '\n' || backslash == nul) = false := by decide
  have hquote : (backslash == quote) = false := by decide
  have hchar : (Rune.scalar backslash).char = backslash := rfl
  simp only [List.cons_append, stringEnd, hchar, hr, hbackslash, hquote, beq_self_eq_true,
    Bool.not_false, Bool.not_true, Bool.and_false, Bool.and_true, Bool.false_and, Bool.false_eq_true,
    if_false, h rest, List.length_cons]

/-- A byte is written as an escape, or as it is if it needs none. -/
theorem escape_cases (b : UInt8) :
    (∃ letter, escape b = [StringLiteral.backslash, letter] ∧ letter < 0x80 ∧ letter ≠ 10 ∧
        letter ≠ 0) ∨
      (escape b = [b] ∧ b ≠ StringLiteral.backslash ∧ b ≠ StringLiteral.quote ∧ b ≠ 10) := by
  rw [escape]
  split
  case isTrue hspecial =>
    rw [Bool.or_eq_true, beq_iff_eq, beq_iff_eq] at hspecial
    obtain rfl | rfl := hspecial <;> exact .inl ⟨_, rfl, by decide, by decide, by decide⟩
  case isFalse hspecial =>
    rw [Bool.or_eq_true, beq_iff_eq, beq_iff_eq, not_or] at hspecial
    split
    case isTrue => exact .inl ⟨110, rfl, by decide, by decide, by decide⟩
    case isFalse hnewline =>
      split
      case isTrue => exact .inl ⟨116, rfl, by decide, by decide, by decide⟩
      case isFalse => exact .inr ⟨rfl, hspecial.1, hspecial.2, by simpa using hnewline⟩

/-- Bytes that continue a sequence are the same in a literal as in its value. -/
theorem drop_flatMap_escape {n : Nat} {value : Text}
    (h : ∀ b ∈ (value.flatMap escape).take n, Rune.isTail b = true) :
    (value.flatMap escape).drop n = (value.drop n).flatMap escape := by
  induction n generalizing value with
  | zero => rfl
  | succ n ih =>
    cases value with
    | nil => rfl
    | cons b more =>
      rw [List.flatMap_cons] at h ⊢
      obtain ⟨letter, hescape, -⟩ | ⟨hescape, -⟩ := escape_cases b
      · rw [hescape] at h
        exact nomatch h StringLiteral.backslash (List.mem_cons_self ..)
      · rw [hescape, List.singleton_append] at h ⊢
        exact ih fun b' hb' => h b' (List.mem_cons_of_mem _ hb')

theorem ascii_ne {b d : UInt8} (hb : b < 0x80) (hd : d < 0x80) (h : b ≠ d) :
    (Char.ofNat b.toNat == Char.ofNat d.toNat) = false := by
  refine beq_eq_false_iff_ne.mpr fun heq => h ?_
  have hlt : b.toNat < 0x80 := UInt8.lt_iff_toNat_lt.mp hb
  have hlt' : d.toNat < 0x80 := UInt8.lt_iff_toNat_lt.mp hd
  have hcode := congrArg (fun c : Char => c.val.toNat) heq
  simp only [Rune.toNat_ofNat (.inl (show b.toNat < 0xD800 by omega)),
    Rune.toNat_ofNat (.inl (show d.toNat < 0xD800 by omega))] at hcode
  exact UInt8.toNat_inj.mp hcode

theorem ascii_ends {b : UInt8} (hb : b < 0x80) (hnewline : b ≠ 10) (hzero : b ≠ 0) :
    (Char.ofNat b.toNat == '\n' || Char.ofNat b.toNat == nul) = false :=
  Bool.or_eq_false_iff.mpr ⟨ascii_ne (d := 10) hb (by decide) hnewline,
    ascii_ne (d := 0) hb (by decide) hzero⟩

theorem wide_ne {c d : Char} (hc : 0x80 ≤ c.val.toNat) (hd : d.val.toNat < 0x80) : (c == d) = false := by
  refine beq_eq_false_iff_ne.mpr ?_
  rintro rfl
  omega

/-- What stands between the quotes of a literal is the inside of a string. -/
theorem inside_flatMap_escape (value : Text) (h : 0 ∉ value) :
    Inside (Rune.decode (value.flatMap escape)) := by
  generalize hsize : value.length = size
  induction size using Nat.strongRecOn generalizing value with
  | ind size ih =>
    cases value with
    | nil => exact fun rest => rfl
    | cons b more =>
      rw [List.length_cons] at hsize
      have hmore := ih more.length (by omega) more (fun hm => h (List.mem_cons_of_mem _ hm)) rfl
      have hzero : b ≠ 0 := fun hb => h (hb ▸ List.mem_cons_self ..)
      have hslash : StringLiteral.backslash < 0x80 := by decide
      rw [List.flatMap_cons]
      obtain ⟨letter, hescape, hascii, hnewline, hletter⟩ | ⟨hescape, hbackslash, hquote, hnewline⟩ :=
        escape_cases b
      case inl =>
        rw [hescape, List.cons_append, Rune.decode_ascii_cons hslash, List.singleton_append,
          Rune.decode_ascii_cons hascii]
        exact hmore.escaped (ascii_ends hascii hnewline hletter)
      case inr =>
        rw [hescape, List.singleton_append]
        by_cases hascii : b < 0x80
        case pos =>
          rw [Rune.decode_ascii_cons hascii]
          exact hmore.plain (ascii_ends hascii hnewline hzero) (ascii_ne hascii (by decide) hquote)
            (ascii_ne hascii (by decide) hbackslash)
        case neg =>
          obtain ⟨-, -, htail, hcode⟩ := Rune.first_takes b (more.flatMap escape)
          have hwide := hcode hascii
          have hrest := ih (more.drop (Rune.first b (more.flatMap escape)).2).length
            (by rw [List.length_drop]; omega) _
            (fun hm => h (List.mem_cons_of_mem _ (List.mem_of_mem_drop hm))) rfl
          rw [Rune.decode_cons, drop_flatMap_escape htail]
          refine hrest.plain ?_ (wide_ne hwide (by decide)) (wide_ne hwide (by decide))
          exact Bool.or_eq_false_iff.mpr ⟨wide_ne hwide (by decide), wide_ne hwide (by decide)⟩

/-- Whether a text is the text of a string: it ends at the quote that closes it. -/
def Quoted (literal : Text) : Prop :=
  ∃ inside, Inside inside ∧ Rune.decode literal = closing :: (inside ++ [closing])

theorem quoted_encode {value : Text} (h : 0 ∉ value) : Quoted (StringLiteral.encode value) := by
  have hquote : StringLiteral.quote < 0x80 := by decide
  refine ⟨Rune.decode (value.flatMap escape), inside_flatMap_escape value h, ?_⟩
  rw [StringLiteral.encode, Rune.decode_ascii_cons hquote, Rune.decode_append_ascii _ hquote]
  rfl

/-- A literal is read up to its closing quote. -/
theorem next_string {literal : Text} (h : Quoted literal) (rest : List Rune) (pos : Pos) :
    ∃ pos', next ⟨Rune.decode literal ++ rest, pos⟩ =
      (⟨.stringLit, literal, pos⟩, ⟨rest, pos'⟩) := by
  obtain ⟨inside, hend, hrunes⟩ := h
  have htake : (Rune.decode literal ++ rest).take (inside.length + 1 + 1) = Rune.decode literal := by
    rw [List.take_append_of_le_length (by simp [hrunes])]
    exact List.take_of_length_le (by simp [hrunes])
  have hhead : head (Rune.decode literal ++ rest) = quote := by
    rw [hrunes]
    rfl
  have hdrop : (Rune.decode literal ++ rest).drop 1 = inside ++ closing :: rest := by
    rw [hrunes, List.cons_append, List.append_assoc]
    rfl
  rw [next_eq_tokenAt _ (by rw [hhead]; decide) (by rw [hhead]; rfl),
    tokenAt_string hhead (by rw [hdrop]; exact hend rest)]
  simp only [htake, Rune.encode_decode, Cursor.skip, List.drop_left]
  exact ⟨_, rfl⟩

end Strings

section Marks

variable {k : TokenKind} (rest : List Rune) (pos : Pos)

theorem next_mark {c : Char} (hmark : mark? c (head rest) = some (k, false))
    (hblank : isBlank c = false) (hslash : (c == '/' && head rest == '/') = false) :
    next ⟨.scalar c :: rest, pos⟩ = (⟨k, String.utf8EncodeChar c, pos⟩, ⟨rest, pos.rightBy 1⟩) := by
  rw [next_eq_tokenAt (.scalar c :: rest) hblank hslash,
    tokenAt_mark (c := ⟨.scalar c :: rest, pos⟩) hmark]
  exact congrArg (fun t => ((⟨k, t, pos⟩ : Token), (⟨rest, pos.rightBy 1⟩ : Cursor)))
    (List.append_nil _)

theorem next_doubleMark {c d : Char} (hmark : mark? c d = some (k, true)) (hblank : isBlank c = false)
    (hslash : (c == '/') = false) :
    next ⟨.scalar c :: .scalar d :: rest, pos⟩ =
      (⟨k, String.utf8EncodeChar c ++ String.utf8EncodeChar d, pos⟩, ⟨rest, pos.rightBy 2⟩) := by
  rw [next_eq_tokenAt (.scalar c :: .scalar d :: rest) hblank
    (Bool.and_eq_false_iff.mpr (.inl hslash)),
    tokenAt_mark (c := ⟨.scalar c :: .scalar d :: rest, pos⟩) hmark]
  exact congrArg (fun t => ((⟨k, t, pos⟩ : Token), (⟨rest, pos.rightBy 2⟩ : Cursor)))
    (congrArg (_ ++ ·) (List.append_nil _))

end Marks

/-- Whether a token ends before a character, and the character after that. -/
def stops (k : TokenKind) (next after : Char) : Bool :=
  match k with
  | .assign | .lt | .gt => next != '='
  | .plus => next != '+'
  | .minus => next != '-' && next != '>'
  | .star => next != '*'
  | .slash => next != '/'
  | .intLit | .floatLit => !inWord next && !(next == '.' && isDigit after)
  | .ident | .kwLet | .kwConst | .kwItem | .kwOrder | .kwBrew | .kwPull | .kwBlend | .kwRistretto
  | .kwEspresso | .kwTamp | .kwServe | .kwRemake | .kwShot | .kwAnd | .kwOr | .kwNot | .kwTrue
  | .kwFalse => !inWord next
  | _ => true

/-- Whether a text is the text of a token. -/
def Spelled (k : TokenKind) (literal : Text) : Prop :=
  match k with
  | .ident => Lexeme.IsName literal
  | .intLit => Lexeme.IsNumber false literal
  | .floatLit => Lexeme.IsNumber true literal
  | .stringLit => Quoted literal
  | k => k.spelling? = some literal

section Tokens

variable {rest : List Rune} (pos : Pos)

theorem next_name {name : Text} (h : Lexeme.IsName name)
    (hstops : stops .ident (head rest) (head rest.tail) = true) :
    ∃ pos', next ⟨Rune.decode name ++ rest, pos⟩ = (⟨.ident, name, pos⟩, ⟨rest, pos'⟩) := by
  obtain ⟨cs, rfl, hstart, hword, hkind⟩ := h
  obtain ⟨pos', hnext⟩ := next_word pos hstart hword ((Bool.not_eq_true' _).mp hstops)
  rw [Rune.decode_encode_scalar, hnext, hkind]
  exact ⟨pos', rfl⟩

/-- The characters of an ASCII text. -/
def chars (t : Text) : List Char := t.map fun b => Char.ofNat b.toNat

/-- The keywords are words, and each is read as the keyword it is. -/
theorem keywords_spelled : ∀ k ∈ TokenKind.keywords,
    Rune.encode ((chars (k.spelling?.getD [])).map .scalar) = k.spelling?.getD [] ∧
      (chars (k.spelling?.getD [])).head?.any startsWord = true ∧
      (chars (k.spelling?.getD [])).all inWord = true ∧
      TokenKind.ofWord (k.spelling?.getD []) = k := by
  decide

theorem next_keyword {k : TokenKind} {literal : Text} (hk : k ∈ TokenKind.keywords)
    (h : k.spelling? = some literal) (hrest : inWord (head rest) = false) :
    ∃ pos', next ⟨Rune.decode literal ++ rest, pos⟩ = (⟨k, literal, pos⟩, ⟨rest, pos'⟩) := by
  obtain ⟨hencode, hstart, hword, hkind⟩ := keywords_spelled k hk
  rw [h, Option.getD_some] at hencode hstart hword hkind
  obtain ⟨pos', hnext⟩ :=
    next_word pos ((Option.any_eq_true _ _).mp hstart) (List.all_eq_true.mp hword) hrest
  rw [hencode, hkind] at hnext
  refine ⟨pos', ?_⟩
  rw [← hnext, ← Rune.decode_encode_scalar, hencode]

/-- The text of a token is read as that token, before anything that does not go on with it. -/
theorem next_token {k : TokenKind} {literal : Text} (h : Spelled k literal)
    (hstops : stops k (head rest) (head rest.tail) = true) :
    ∃ pos', next ⟨Rune.decode literal ++ rest, pos⟩ = (⟨k, literal, pos⟩, ⟨rest, pos'⟩) := by
  cases k with
  | illegal | eof => exact nomatch h
  | ident => exact next_name pos h hstops
  | intLit | floatLit =>
    obtain ⟨cs, rfl, ⟨c, hc, hstart⟩, hnumber⟩ := h
    rw [stops, Bool.and_eq_true, Bool.not_eq_true', Bool.not_eq_true'] at hstops
    have hhead : isDigit (head (cs.map .scalar)) = true := by
      obtain ⟨cs, rfl⟩ := List.head?_eq_some_iff.mp hc
      exact hstart
    have hpoint : head rest = '.' → isDigit (head rest.tail) = false := fun hpoint => by
      simpa [hpoint] using hstops.2
    rw [Rune.decode_encode_scalar]
    exact next_number pos hhead hnumber hstops.1 hpoint
  | stringLit => exact next_string h rest pos
  | kwLet | kwConst | kwItem | kwOrder | kwBrew | kwPull | kwBlend | kwRistretto | kwEspresso | kwTamp
  | kwServe | kwRemake | kwShot | kwAnd | kwOr | kwNot | kwTrue | kwFalse =>
    exact next_keyword pos (by decide) h ((Bool.not_eq_true' _).mp hstops)
  | power | eq | neq | leq | geq | increment | decrement | arrow =>
    cases h
    exact ⟨_, next_doubleMark rest pos rfl rfl rfl⟩
  | percent | lparen | rparen | lbrace | rbrace | lbracket | rbracket | comma | colon | dot
  | question =>
    cases h
    exact ⟨_, next_mark rest pos rfl rfl rfl⟩
  | assign | lt | gt | plus | star =>
    cases h
    exact ⟨_, next_mark rest pos (by simpa [mark?, stops] using hstops) rfl rfl⟩
  | minus =>
    cases h
    have hne : head rest ≠ '-' ∧ head rest ≠ '>' := by simpa [stops] using hstops
    exact ⟨_, next_mark rest pos (by simp [mark?, hne]) rfl rfl⟩
  | slash =>
    cases h
    exact ⟨_, next_mark rest pos rfl rfl (by simpa [stops] using hstops)⟩

end Tokens

end PeakLang.Scan
