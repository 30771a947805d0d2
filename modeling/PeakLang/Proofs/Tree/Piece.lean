import PeakLang.Proofs.Token.Tokenize
import PeakLang.Proofs.Tree.Unplaced
import PeakLang.Proofs.Tree.Words

namespace PeakLang.Piece

open Scan (head stops Spelled isBlank)

/-- The runes of pieces in a row, each read alone. -/
def runes (ps : List Piece) : List Rune := ps.flatMap fun p => Rune.decode p.text

@[simp]
theorem runes_cons (p : Piece) (ps : List Piece) : runes (p :: ps) = Rune.decode p.text ++ runes ps :=
  List.flatMap_cons

@[simp]
theorem runes_append (ps qs : List Piece) : runes (ps ++ qs) = runes ps ++ runes qs :=
  List.flatMap_append

/-- Whether pieces are read one by one, before runes that follow them. -/
def Apart : List Piece → List Rune → Prop
  | [], _ => True
  | .blank t :: ps, rest => (∀ r ∈ Rune.decode t, isBlank r.char = true) ∧ Apart ps rest
  | .token k l :: ps, rest =>
    Spelled k l ∧ stops k (head (runes ps ++ rest)) (head (runes ps ++ rest).tail) = true ∧
      Apart ps rest

theorem apart_append {ps qs : List Piece} {rest : List Rune} :
    Apart (ps ++ qs) rest ↔ Apart ps (runes qs ++ rest) ∧ Apart qs rest := by
  induction ps with
  | nil => exact ⟨fun h => ⟨trivial, h⟩, fun h => h.2⟩
  | cons p ps ih =>
    cases p with
    | blank t => simp only [List.cons_append, Apart, ih, and_assoc]
    | token k l => simp only [List.cons_append, Apart, ih, and_assoc, runes_append, List.append_assoc]

section Closed

/-- Whether a text is read alone, whatever follows it. -/
def Closed (t : Text) : Prop := ∀ more, Rune.decode (t ++ more) = Rune.decode t ++ Rune.decode more

theorem closed_encode (cs : List Char) : Closed (Rune.encode (cs.map .scalar)) := by
  intro more
  rw [Rune.decode_encode_append, Rune.decode_encode_scalar]

theorem closed_blank {t : Text} (h : ∀ r ∈ Rune.decode t, isBlank r.char = true) : Closed t := by
  have hchars : ((Rune.decode t).map Rune.char).map .scalar = Rune.decode t := by
    refine Scan.map_scalar_char fun r hr hchar => ?_
    have hblank := h r hr
    rw [hchar] at hblank
    exact absurd hblank (by decide)
  have hclosed := closed_encode ((Rune.decode t).map Rune.char)
  rwa [hchars, Rune.encode_decode] at hclosed

theorem closed_string {literal : Text} (h : Scan.Quoted literal) : Closed literal := by
  intro more
  obtain ⟨inside, -, hrunes⟩ := h
  have hquote : StringLiteral.quote < 0x80 := by decide
  have hliteral : literal = Rune.encode (Scan.closing :: inside) ++ [StringLiteral.quote] := by
    rw [← Rune.encode_decode literal, hrunes, ← List.cons_append, Rune.encode_append]
    rfl
  have hlast (rest : Text) : Rune.decode (literal ++ rest) =
      Rune.decode (Rune.encode (Scan.closing :: inside)) ++
        .scalar (Char.ofNat StringLiteral.quote.toNat) :: Rune.decode rest := by
    rw [hliteral, List.append_assoc, List.singleton_append, Rune.decode_append_ascii _ hquote,
      Rune.decode_ascii_cons hquote rest]
  have hnil := hlast []
  rw [List.append_nil] at hnil
  rw [hlast, hnil, List.append_assoc]
  rfl

theorem spelling_ascii (k : TokenKind) :
    Rune.encode ((Scan.chars (k.spelling?.getD [])).map .scalar) = k.spelling?.getD [] := by
  cases k <;> decide

theorem closed_spelling {k : TokenKind} {l : Text} (h : k.spelling? = some l) : Closed l := by
  have hascii := spelling_ascii k
  rw [h, Option.getD_some] at hascii
  exact hascii ▸ closed_encode (Scan.chars l)

theorem closed_spelled {k : TokenKind} {l : Text} (h : Spelled k l) : Closed l := by
  cases k with
  | ident | intLit | floatLit =>
    obtain ⟨cs, rfl, -⟩ := h
    exact closed_encode cs
  | stringLit => exact closed_string h
  | _ => exact closed_spelling h

/-- The text of pieces that stand apart is read piece by piece. -/
theorem decode_render {ps : List Piece} {rest : List Rune} (h : Apart ps rest) :
    Rune.decode (render ps) = runes ps := by
  induction ps with
  | nil => rfl
  | cons p ps ih =>
    rw [render, List.flatMap_cons, runes_cons]
    cases p with
    | blank t => exact (closed_blank h.1 _).trans (congrArg _ (ih h.2))
    | token k l => exact (closed_spelled h.1 _).trans (congrArg _ (ih h.2.2))

end Closed

section Scanning

theorem spelled_ne_nil {k : TokenKind} {l : Text} (h : Spelled k l) : l ≠ [] := by
  have hchars {cs : List Char} {p : Char → Bool} (hhead : ∃ c ∈ cs.head?, p c = true) :
      Rune.encode (cs.map .scalar) ≠ [] := by
    intro hnil
    have hdecode := Rune.decode_encode_scalar cs
    rw [hnil] at hdecode
    obtain rfl := List.map_eq_nil_iff.mp hdecode.symm
    obtain ⟨c, hc, -⟩ := hhead
    exact nomatch hc
  cases k with
  | ident | intLit | floatLit =>
    obtain ⟨cs, rfl, hhead, -⟩ := h
    exact hchars hhead
  | stringLit =>
    rintro rfl
    obtain ⟨inside, -, hrunes⟩ := h
    cases hrunes
  | illegal | eof => exact nomatch h
  | _ => cases h; decide

theorem upToEnd_blanks {blanks : List Rune} (h : ∀ r ∈ blanks, isBlank r.char = true)
    (rest : List Rune) (limit : Nat) (pos : Pos) :
    ∃ pos', Scan.upToEnd limit ⟨blanks ++ rest, pos⟩ = Scan.upToEnd limit ⟨rest, pos'⟩ := by
  induction blanks generalizing pos with
  | nil => exact ⟨pos, rfl⟩
  | cons r blanks ih =>
    obtain ⟨hr, hblanks⟩ := List.forall_mem_cons.mp h
    obtain ⟨pos₁, hnext⟩ := Scan.next_blank hr (blanks ++ rest) pos
    obtain ⟨pos₂, hmore⟩ := ih hblanks pos₁
    refine ⟨pos₂, hmore ▸ ?_⟩
    cases limit with
    | zero => rfl
    | succ limit => rw [List.cons_append, Scan.upToEnd, Scan.upToEnd, hnext]

/-- Pieces that stand apart are read as their tokens, and then as the end of the source. -/
theorem upToEnd_apart {ps : List Piece} (h : Apart ps []) {limit : Nat}
    (hlimit : (runes ps).length < limit) (pos : Pos) :
    (Scan.upToEnd limit ⟨runes ps, pos⟩).map Token.unplaced = words ps ++ [⟨.eof, [], .start⟩] := by
  induction ps generalizing limit pos with
  | nil =>
    obtain ⟨limit, rfl⟩ : ∃ n, limit = n + 1 := ⟨limit - 1, by omega⟩
    rfl
  | cons p ps ih =>
    rw [runes_cons, List.length_append] at hlimit
    rw [runes_cons]
    cases p with
    | blank t =>
      obtain ⟨pos', hblanks⟩ := upToEnd_blanks h.1 (runes ps) limit pos
      exact hblanks ▸ ih h.2 (by omega) pos'
    | token k l =>
      obtain ⟨hspelled, hstops, hps⟩ := h
      rw [List.append_nil] at hstops
      obtain ⟨limit, rfl⟩ : ∃ n, limit = n + 1 := ⟨limit - 1, by omega⟩
      obtain ⟨pos', hnext⟩ := Scan.next_token pos hspelled hstops
      have hlength : 0 < (Rune.decode l).length := by
        refine List.length_pos_iff.mpr fun hnil => spelled_ne_nil hspelled ?_
        rw [← Rune.encode_decode l, hnil]
        rfl
      have hkind : (k == .eof) = false := by
        refine beq_eq_false_iff_ne.mpr ?_
        rintro rfl
        exact nomatch hspelled
      have hlimit : (runes ps).length < limit := by
        change (Rune.decode l).length + _ < _ at hlimit
        omega
      rw [Scan.upToEnd, show (token k l).text = l from rfl, hnext]
      simp only [hkind, Bool.false_eq_true, if_false, List.map_cons, ih hps hlimit pos']
      rfl

/-- The text of pieces that stand apart has their tokens. -/
theorem tokenize_render {ps : List Piece} (h : Apart ps []) :
    (Token.tokenize (render ps)).map Token.unplaced = words ps ++ [⟨.eof, [], .start⟩] := by
  rw [Token.tokenize, Cursor.ofText, decode_render h]
  exact upToEnd_apart h (Nat.lt_succ_self _) .start

end Scanning

end PeakLang.Piece
