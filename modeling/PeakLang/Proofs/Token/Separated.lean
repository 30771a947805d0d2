import PeakLang.Proofs.Token.Stretch
import PeakLang.Proofs.Tree.Layout

namespace PeakLang

namespace Scan

open Rune (Whole encode)

variable {c : Cursor} {r : Rune}

theorem eq_scalar {ch : Char} (h : r.char = ch) (hch : ch ≠ '�') : r = .scalar ch := by
  rw [← h, scalar_char (by rw [h]; exact hch)]

/-- A string that is closed: its inside, and the quote that it ends at. -/
theorem stringEnd_closed {escaped : Bool} {runes : List Rune} {count : Nat}
    (h : stringEnd escaped runes = .ok count) :
    ∃ inside, runes.take count = inside ++ [closing] ∧
      ∀ rest, stringEnd escaped (inside ++ closing :: rest) = .ok (inside.length + 1) := by
  induction runes generalizing escaped count with
  | nil => cases h
  | cons r more ih =>
    rw [stringEnd] at h
    split at h
    case isTrue => cases h
    case isFalse hend =>
      split at h
      case isTrue hquote =>
        cases h
        obtain rfl : r = closing :=
          eq_scalar (by simpa using (Bool.and_eq_true_iff.mp hquote).2) (by decide)
        refine ⟨[], rfl, fun rest => ?_⟩
        rw [List.nil_append, stringEnd, if_neg hend, if_pos hquote]
        rfl
      case isFalse hquote =>
        split at h
        case h_2 => cases h
        case h_1 n hmore =>
          cases h
          obtain ⟨inside, htake, hinside⟩ := ih hmore
          refine ⟨r :: inside, by rw [List.take_succ_cons, htake]; rfl, fun rest => ?_⟩
          rw [List.cons_append, stringEnd, if_neg hend, if_neg hquote, hinside]
          rfl

theorem mark?_spelled {ch next : Char} {k : TokenKind} {both : Bool}
    (h : mark? ch next = some (k, both)) (hk : k ≠ .illegal) :
    Spelled k (String.utf8EncodeChar ch ++ if both then String.utf8EncodeChar next else []) ∧
      ch ∉ ['�', nul] ∧ (both = true → next ∉ ['�', nul]) := by
  unfold mark? at h
  split at h
  case h_20 => cases h
  all_goals
    simp only [Option.some.injEq] at h
    repeat' split at h
    all_goals
      cases h
      simp_all [Spelled, TokenKind.spelling?]
      try decide

theorem spelled_word (hword : startsWord (head c.ahead) = true) :
    Spelled (tokenAt c).1.kind (tokenAt c).1.literal := by
  have hlexical := lexical_word hword c.pos
  rw [tokenAt_word hword]
  generalize encode (c.ahead.takeWhile fun r => inWord r.char) = word at hlexical ⊢
  cases hfind : TokenKind.keywords.find? fun k => k.spelling? == some word with
  | none =>
    have hkind : TokenKind.ofWord word = .ident := by rw [TokenKind.ofWord, hfind]; rfl
    rw [hkind] at hlexical ⊢
    exact hlexical
  | some k =>
    have hkind : TokenKind.ofWord word = k := by rw [TokenKind.ofWord, hfind]; rfl
    have hspelling : k.spelling? = some word := by simpa using List.find?_some hfind
    rw [hkind]
    cases k <;> first | exact hspelling | cases hspelling

theorem spelled_mark {k : TokenKind} {both : Bool} (hnul : head c.ahead ≠ nul)
    (h : mark? (head c.ahead) (head (c.ahead.drop 1)) = some (k, both)) (hk : k ≠ .illegal) :
    Spelled (tokenAt c).1.kind (tokenAt c).1.literal := by
  obtain ⟨hspelled, hfirst, hsecond⟩ := mark?_spelled h hk
  have htext : encode (c.ahead.take (if both then 2 else 1)) = String.utf8EncodeChar (head c.ahead) ++
      if both then String.utf8EncodeChar (head (c.ahead.drop 1)) else [] := by
    obtain ⟨r, more, hahead⟩ := List.exists_cons_of_ne_nil (ne_nil_of_head_ne hnul)
    rw [hahead] at hfirst hsecond ⊢
    obtain ⟨ch, rfl⟩ : ∃ ch, r = .scalar ch := ⟨_, eq_scalar rfl fun hr => hfirst (by simp [head, hr])⟩
    cases both with
    | false => rfl
    | true =>
      have hsecond := hsecond rfl
      obtain ⟨r, rest, rfl⟩ : ∃ r rest, more = r :: rest :=
        List.exists_cons_of_ne_nil (ne_nil_of_head_ne fun hnul => hsecond (by simp [hnul]))
      obtain ⟨next, rfl⟩ : ∃ next, r = .scalar next :=
        ⟨_, eq_scalar rfl fun hr => hsecond (by simp [head, hr])⟩
      exact congrArg (_ ++ ·) (List.append_nil _)
  rw [tokenAt_mark h, htext]
  exact hspelled

/-- The text of a legal token is spelled as its kind is. -/
theorem tokenAt_spelled (hwhole : Whole c.ahead) (hlegal : (tokenAt c).1.kind ≠ .illegal)
    (hkind : (tokenAt c).1.kind ≠ .eof) : Spelled (tokenAt c).1.kind (tokenAt c).1.literal := by
  cases tokenCase c with
  | eof h => exact absurd (congrArg (·.1.kind) (tokenAt_end h)) hkind
  | string count h hend =>
    rw [tokenAt_string h hend]
    obtain ⟨r, more, hahead⟩ : ∃ r more, c.ahead = r :: more :=
      List.exists_cons_of_ne_nil (ne_nil_of_head_ne (by rw [h]; decide))
    rw [hahead] at h hend hwhole ⊢
    obtain rfl : r = closing := eq_scalar h (by decide)
    obtain ⟨inside, htake, hinside⟩ := stringEnd_closed hend
    refine ⟨inside, hinside, ?_⟩
    rw [← List.take_append_drop (count + 1) (closing :: more)] at hwhole
    rw [hwhole.of_prefix, List.take_succ_cons]
    exact congrArg _ htake
  | unclosed count h hend => exact absurd (congrArg (·.1.kind) (tokenAt_unclosed h hend)) hlegal
  | word h => exact spelled_word h
  | number h =>
    have hlexical := lexical_number h c.pos
    rw [tokenAt_number h]
    cases hfractional : (number c.ahead).2 with
    | true | false =>
      rw [hfractional] at hlexical
      exact hlexical
  | mark k both hnul h =>
    exact spelled_mark hnul h fun hk => hlegal (by rw [tokenAt_mark h, hk])
  | illegal hnul h => exact absurd (congrArg (·.1.kind) h) hlegal

theorem upToEnd_spelled {limit : Nat} (hwhole : Whole c.ahead) (hs : Sourced c.ahead) :
    ∀ t ∈ upToEnd limit c, t.kind ≠ .illegal → t.kind ≠ .eof → Spelled t.kind t.literal := by
  induction limit generalizing c with
  | zero => exact fun t ht => absurd ht List.not_mem_nil
  | succ limit ih =>
    have hfirst : (next c).1.kind ≠ .illegal → (next c).1.kind ≠ .eof →
        Spelled (next c).1.kind (next c).1.literal := by
      obtain ⟨gap, hgap⟩ := skipGap_suffix false c.ahead c.pos
      rw [← hgap] at hwhole
      exact tokenAt_spelled hwhole.of_suffix
    rw [upToEnd_succ]
    split
    case isTrue => exact List.forall_mem_singleton.mpr hfirst
    case isFalse =>
      obtain ⟨taken, htaken⟩ := (next_step hs).suffix
      rw [← htaken] at hwhole
      refine List.forall_mem_cons.mpr ⟨hfirst, ih hwhole.of_suffix fun r hr => hs r ?_⟩
      rw [← htaken]
      exact List.mem_append_right _ hr

end Scan

namespace Token

open Scan (Spelled)

/-- The bytes of the blanks: space, tab, line feed and carriage return. -/
def blanks : List UInt8 := [32, 9, 10, 13]

/-- The texts of tokens, with a byte between each two. -/
def separated (b : UInt8) (ts : List Token) : Text := [b].intercalate (ts.map literal)

/-- Tokens as pieces, with a blank between each two. -/
def pieces (b : UInt8) : List Token → List Piece
  | [] => []
  | [t] => [.token t.kind t.literal]
  | t :: ts => .token t.kind t.literal :: .blank [b] :: pieces b ts

theorem render_pieces (b : UInt8) (ts : List Token) : Piece.render (pieces b ts) = separated b ts := by
  match ts with
  | [] => rfl
  | [t] => rfl
  | t :: u :: ts => exact congrArg (t.literal ++ b :: ·) (render_pieces b (u :: ts))

theorem words_pieces (b : UInt8) (ts : List Token) : Piece.words (pieces b ts) = ts.map unplaced := by
  match ts with
  | [] | [_] => rfl
  | t :: u :: ts => exact congrArg (t.unplaced :: ·) (words_pieces b (u :: ts))

/-- Every token ends before a blank. -/
theorem stops_blank {b : UInt8} (hb : b ∈ blanks) (k : TokenKind) (after : Char) :
    Scan.stops k (Char.ofNat b.toNat) after = true := by
  have hword : blanks.all (fun b => !Scan.inWord (Char.ofNat b.toNat)) = true := by decide +kernel
  have hmarks : blanks.all (fun b => !List.contains ['=', '+', '-', '>', '*', '/', '.']
      (Char.ofNat b.toNat)) = true := by decide
  have hword := List.all_eq_true.mp hword b hb
  have hmarks := List.all_eq_true.mp hmarks b hb
  cases k <;> simp_all [Scan.stops]

theorem apart_pieces {b : UInt8} (hb : b ∈ blanks) {ts : List Token}
    (h : ∀ t ∈ ts, Spelled t.kind t.literal) : Piece.Apart (pieces b ts) [] := by
  match ts with
  | [] => trivial
  | [t] =>
    refine ⟨h t (List.mem_singleton_self t), ?_, trivial⟩
    change Scan.stops t.kind Scan.nul Scan.nul = true
    cases t.kind <;> rfl
  | t :: u :: ts =>
    obtain ⟨ht, hmore⟩ := List.forall_mem_cons.mp h
    have hall : blanks.all (fun b => b < 0x80 && Scan.isBlank (Char.ofNat b.toNat)) = true := by decide
    obtain ⟨hascii, hblank⟩ := Bool.and_eq_true_iff.mp (List.all_eq_true.mp hall b hb)
    have hdecode : Rune.decode [b] = [.scalar (Char.ofNat b.toNat)] :=
      Rune.decode_ascii_cons (of_decide_eq_true hascii) []
    refine ⟨ht, ?_, ?_, apart_pieces hb hmore⟩
    · rw [Piece.runes_cons, show (Piece.blank [b]).text = [b] from rfl, hdecode]
      exact stops_blank hb _ _
    · rw [hdecode]
      exact List.forall_mem_singleton.mpr hblank

/-- The tokens of a source end with one end of the source, which has no text. -/
theorem map_unplaced_tokenize (source : Text) :
    (tokenize source).map unplaced =
      ((tokenize source).filter (·.kind ≠ .eof)).map unplaced ++ [⟨.eof, [], .start⟩] := by
  obtain ⟨words, last, rest, htokens, -, hlast, hwords, hsplits⟩ := Scan.tokenize_stretches source
  have hend : last.token.unplaced = ⟨.eof, [], .start⟩ := by
    cases (hsplits words last [] rfl).spans with
    | eof hkind hliteral => rw [unplaced, hkind, hliteral]
    | word hkind => exact absurd hlast hkind.1
    | stray r hkind | unclosed inside hkind => cases hlast.symm.trans hkind
  have hfilter : (words.map Stretch.token).filter (·.kind ≠ .eof) = words.map Stretch.token := by
    refine List.filter_eq_self.mpr fun t ht => ?_
    obtain ⟨s, hs, rfl⟩ := List.mem_map.mp ht
    exact decide_eq_true (hwords s hs)
  rw [htokens, List.map_append, List.filter_append, hfilter]
  simp [hlast, hend]

/-- The tokens of a source whose tokens are all legal, written with a blank between each two, are read
as the same tokens. -/
theorem tokenize_separated (source : Text) (hlegal : ∀ t ∈ tokenize source, t.kind ≠ .illegal)
    {b : UInt8} (hb : b ∈ blanks) :
    (tokenize (separated b ((tokenize source).filter (·.kind ≠ .eof)))).map unplaced =
      (tokenize source).map unplaced := by
  have hspelled : ∀ t ∈ (tokenize source).filter (·.kind ≠ .eof), Spelled t.kind t.literal := by
    intro t ht
    obtain ⟨hmem, hkind⟩ := List.mem_filter.mp ht
    exact Scan.upToEnd_spelled (c := .ofText source) (Rune.whole_decode source)
      (Scan.sourced_decode source) t hmem (hlegal t hmem) (of_decide_eq_true hkind)
  rw [← render_pieces, Piece.tokenize_render (apart_pieces hb hspelled), words_pieces,
    map_unplaced_tokenize source]

/-- A number before a word, one before a point that is not its own, and a string with blanks and an
escaped quote in it. -/
private def jotted : Text := "2let->\"a  \\\"b\"/x--1.e //"

theorem tokenize_separated_jotted :
    ((∀ t ∈ tokenize jotted, t.kind ≠ .illegal) ∧ 10 ∈ blanks) ∧
      separated 32 ((tokenize jotted).filter (·.kind ≠ .eof)) =
        "2 let -> \"a  \\\"b\" / x -- 1 . e" ∧
      (tokenize (separated 10 ((tokenize jotted).filter (·.kind ≠ .eof)))).map unplaced =
        (tokenize jotted).map unplaced := by
  have hlegal : ∀ t ∈ tokenize jotted, t.kind ≠ .illegal := by decide +kernel
  exact ⟨⟨hlegal, by decide⟩, by decide +kernel, tokenize_separated jotted hlegal (by decide)⟩

end Token

end PeakLang
