import PeakLang.Proofs.Tree.Piece

namespace PeakLang

open Scan (head stops)

namespace Piece

/-- Whether runes can follow an operand: they do not go on with a word or a number. -/
def Ends (rest : List Rune) : Prop := stops .intLit (head rest) (head rest.tail) = true

/-- Runes that no word and no number takes. -/
def isBreak (r : Rune) : Bool := !Scan.inWord r.char && r.char != '.'

variable {ps qs : List Piece} {rest : List Rune}

theorem ends_of_isBreak {r : Rune} (h : isBreak r = true) (rest : List Rune) : Ends (r :: rest) := by
  obtain ⟨hword, hpoint⟩ := Bool.and_eq_true_iff.mp h
  change (!Scan.inWord r.char && !(r.char == '.' && _)) = true
  rw [hword, beq_eq_false_iff_ne.mpr (bne_iff_ne.mp hpoint), Bool.false_and]
  rfl

theorem Ends.word (h : Ends rest) : Scan.inWord (head rest) = false :=
  (Bool.not_eq_true' _).mp (Bool.and_eq_true_iff.mp h).1

/-- A piece that starts with a break may follow an operand. -/
theorem ends_piece {p : Piece} (h : (Rune.decode p.text).head?.any isBreak = true) (ps : List Piece)
    (rest : List Rune) : Ends (runes (p :: ps) ++ rest) := by
  rw [runes_cons, List.append_assoc]
  cases hrunes : Rune.decode p.text with
  | nil =>
    rw [hrunes] at h
    exact nomatch h
  | cons r more =>
    rw [hrunes] at h
    exact ends_of_isBreak h _

section Marks

theorem apart_space (h : Apart ps rest) : Apart (.space :: ps) rest := ⟨by decide, h⟩

theorem apart_newline (h : Apart ps rest) : Apart (.newline :: ps) rest := ⟨by decide, h⟩

theorem apart_indent (depth : Nat) (h : Apart ps rest) : Apart (.indent depth :: ps) rest := by
  have hlevel : ∀ r ∈ Rune.decode ("    " : Text), Scan.isBlank r.char = true := by decide
  refine ⟨?_, h⟩
  induction depth with
  | zero => exact nofun
  | succ depth ih =>
    rw [Text.repeated, List.replicate_succ, List.flatten_cons, closed_blank hlevel]
    intro r hr
    obtain hr | hr := List.mem_append.mp hr
    · exact hlevel r hr
    · exact ih r hr

theorem ends_space (ps : List Piece) (rest : List Rune) : Ends (runes (.space :: ps) ++ rest) :=
  ends_piece (by decide) ps rest

theorem ends_newline (ps : List Piece) (rest : List Rune) : Ends (runes (.newline :: ps) ++ rest) :=
  ends_piece (by decide) ps rest

theorem spelled_mark {k : TokenKind} (hk : k.spelling?.isSome = true) :
    Scan.Spelled k (k.spelling?.getD []) := by
  cases k <;> first | rfl | exact nomatch hk

/-- Whether nothing can go on with a mark. -/
def isDelimiter : TokenKind → Bool
  | .lparen | .rparen | .lbrace | .rbrace | .lbracket | .rbracket | .comma | .colon | .dot
  | .question | .arrow | .increment | .decrement => true
  | _ => false

theorem apart_delimiter {k : TokenKind} (hk : isDelimiter k = true) (h : Apart ps rest) :
    Apart (.mark k :: ps) rest := by
  cases k <;> first | exact ⟨rfl, rfl, h⟩ | exact nomatch hk

theorem apart_mark_space {k : TokenKind} (hk : k.spelling?.isSome = true) (h : Apart ps rest) :
    Apart (.mark k :: .space :: ps) rest := by
  refine ⟨spelled_mark hk, ?_, apart_space h⟩
  cases k <;> rfl

theorem apart_name {name : Text} (hname : Lexeme.IsName name) (hends : Ends (runes ps ++ rest))
    (h : Apart ps rest) : Apart (.name name :: ps) rest :=
  ⟨hname, (Bool.not_eq_true' _).mpr hends.word, h⟩

/-- Keywords that are operands or statements of their own. -/
theorem apart_keyword {k : TokenKind} (hk : k ∈ TokenKind.keywords) (hends : Ends (runes ps ++ rest))
    (h : Apart ps rest) : Apart (.mark k :: ps) rest := by
  have hword : (!Scan.inWord (head (runes ps ++ rest))) = true := (Bool.not_eq_true' _).mpr hends.word
  cases k <;> first | exact absurd hk (by decide) | exact ⟨rfl, hword, h⟩

end Marks

/-- Items that stand apart before anything that may follow them do so in a row. -/
theorem apart_separated {separator : List Piece} {items : List (List Piece)}
    (hitems : ∀ ps ∈ items, ∀ rest, Ends rest → Apart ps rest)
    (hends : ∀ rest, Ends (runes separator ++ rest)) (hseparator : ∀ rest, Apart separator rest)
    (hrest : Ends rest) : Apart (separated separator items) rest := by
  match items with
  | [] => exact trivial
  | [ps] =>
    rw [separated, List.intercalate_singleton]
    exact hitems ps (List.mem_cons_self ..) rest hrest
  | ps :: qs :: items =>
    obtain ⟨hps, hmore⟩ := List.forall_mem_cons.mp hitems
    have hlist := apart_separated hmore hends hseparator hrest
    rw [separated, List.intercalate_cons_cons, List.append_assoc, apart_append, apart_append]
    rw [separated] at hlist
    refine ⟨hps _ ?_, hseparator _, hlist⟩
    rw [runes_append, List.append_assoc]
    exact hends _

end Piece

section Types

open Piece

theorem TypeExpr.apart_params {items : List (List Piece)} {rest : List Rune}
    (h : ∀ ps ∈ items, ∀ rest, Ends rest → Apart ps rest) (hrest : Ends rest) :
    Apart (separated [.mark .comma] items) rest :=
  apart_separated h (fun rest => ends_piece (by decide) [] rest)
    (fun _ => apart_delimiter rfl trivial) hrest

mutual

/-- The pieces of a type stand apart. -/
theorem TypeExpr.apart (t : TypeExpr) (h : t.Legible) (rest : List Rune) (hrest : Ends rest) :
    Apart t.pieces rest := by
  cases t with
  | named name => exact apart_name h hrest trivial
  | array base =>
    refine apart_delimiter rfl (apart_append.mpr ⟨?_, apart_delimiter rfl trivial⟩)
    exact TypeExpr.apart base h _ (ends_piece (by decide) [] rest)
  | optional base =>
    refine apart_append.mpr ⟨?_, apart_delimiter rfl trivial⟩
    exact TypeExpr.apart base h.1 _ (ends_piece (by decide) [] rest)
  | function params result =>
    have hresult := TypeExpr.apart result h.2 rest hrest
    refine apart_delimiter rfl (apart_append.mpr
      ⟨?_, apart_delimiter rfl (apart_delimiter rfl hresult)⟩)
    exact TypeExpr.apart_params (TypeExpr.apartAll params h.1) (ends_piece (by decide) _ rest)

theorem TypeExpr.apartAll (ts : List TypeExpr) (h : TypeExpr.LegibleAll ts) :
    ∀ ps ∈ TypeExpr.piecesOfAll ts, ∀ rest, Ends rest → Apart ps rest := by
  cases ts with
  | nil => nofun
  | cons t ts =>
    exact List.forall_mem_cons.mpr ⟨TypeExpr.apart t h.1, TypeExpr.apartAll ts h.2⟩

end

theorem TypeExpr.pieces_head_of_isArrayLike {t : TypeExpr} (h : t.isArrayLike = true) :
    ∃ l ps, t.pieces = .token .lbracket l :: ps := by
  cases t with
  | array base => exact ⟨_, _, rfl⟩
  | optional base =>
    obtain ⟨l, ps, hpieces⟩ := TypeExpr.pieces_head_of_isArrayLike (t := base) h
    exact ⟨l, _, by rw [TypeExpr.pieces, hpieces, List.cons_append]⟩
  | named | function => exact absurd h Bool.false_ne_true

end Types

namespace Tree

open Piece

section Heads

/-- The first piece of an expression is its first token. -/
theorem Expr.pieces_head (e : Expr) (h : e.Legible) : ∃ l ps, e.pieces = .token e.head l :: ps := by
  have henclosed {e : Expr} (hhead : ∃ l ps, e.pieces = .token e.head l :: ps) (c : Prop)
      [Decidable c] (more : List Piece) :
      ∃ l ps, Expr.enclosedIf (decide c) e.pieces ++ more =
        .token (if c then .lparen else e.head) l :: ps := by
    by_cases hc : c
    · rw [if_pos hc, decide_eq_true hc]
      exact ⟨_, _, rfl⟩
    · obtain ⟨l, ps, hpieces⟩ := hhead
      rw [if_neg hc, decide_eq_false hc]
      exact ⟨l, ps ++ more, congrArg (· ++ more) hpieces⟩
  cases e with
  | name | shot | int | float | string | array => exact ⟨_, _, rfl⟩
  | bool value => cases value <;> exact ⟨_, _, rfl⟩
  | emptyArray type =>
    obtain ⟨l, ps, hpieces⟩ := TypeExpr.pieces_head_of_isArrayLike h.2
    exact ⟨l, _, by rw [Expr.pieces, hpieces, List.cons_append]; rfl⟩
  | member object n => exact henclosed (Expr.pieces_head object h.1) _ _
  | index object i => exact henclosed (Expr.pieces_head object h.1) _ _
  | call callee args => exact henclosed (Expr.pieces_head callee h.1) _ _
  | unary op operand => cases op <;> exact ⟨_, _, rfl⟩
  | binary op left right => exact henclosed (Expr.pieces_head left h.1) _ _
  | conditional test consequent alternate => exact henclosed (Expr.pieces_head test h.1) _ _

end Heads

section Exprs

/-- The first character of an expression is no sign, if its first token is none. -/
theorem stops_minus {k : TokenKind} {l : Text} (h : Scan.Spelled k l)
    (hstarts : Parser.startsExpression k = true) (hk : k ≠ .minus) (rest : List Rune) :
    stops .minus (head (Rune.decode l ++ rest)) (head (Rune.decode l ++ rest).tail) = true := by
  have hchars {cs : List Char} {p : Char → Bool} (hhead : ∃ c ∈ cs.head?, p c = true)
      (hminus : p '-' = false) (hangle : p '>' = false) :
      stops .minus (head (Rune.decode (Rune.encode (cs.map .scalar)) ++ rest))
        (head (Rune.decode (Rune.encode (cs.map .scalar)) ++ rest).tail) = true := by
    obtain ⟨c, hc, hp⟩ := hhead
    obtain ⟨cs, rfl⟩ := List.head?_eq_some_iff.mp hc
    rw [Rune.decode_encode_scalar]
    change (c != '-' && c != '>') = true
    rw [Bool.and_eq_true, bne_iff_ne, bne_iff_ne]
    constructor <;> rintro rfl
    · exact Bool.false_ne_true (hminus.symm.trans hp)
    · exact Bool.false_ne_true (hangle.symm.trans hp)
  cases k with
  | ident =>
    obtain ⟨cs, rfl, hhead, -⟩ := h
    exact hchars hhead (by decide) (by decide)
  | intLit | floatLit =>
    obtain ⟨cs, rfl, hhead, -⟩ := h
    exact hchars hhead (by decide) (by decide)
  | stringLit =>
    obtain ⟨inside, -, hrunes⟩ := h
    rw [hrunes]
    rfl
  | kwTrue | kwFalse | kwShot | lparen | lbracket | kwNot => cases h; rfl
  | minus => exact absurd rfl hk
  | _ => cases hstarts

/-- An operand of a sign does not start with one. -/
theorem Expr.head_ne_minus {e : Expr} (hlevel : ¬ e.level < 6) (hnegation : e.isNegation = false) :
    e.head ≠ .minus := by
  have hoperand {e : Expr} (hlevel : e.level = 7) : e.head ≠ .minus := fun hhead => by
    have hnone := e.unary_ofToken?_head hlevel
    rw [hhead] at hnone
    exact nomatch hnone
  cases e with
  | unary op =>
    cases op with
    | neg => exact nomatch hnegation
    | not => exact nofun
  | binary op left =>
    obtain rfl : op = .pow := Decidable.byContradiction fun hop =>
      hlevel (Nat.lt_succ_of_le (Expr.level_binaryOp_le_five hop))
    change (if left.level < 7 then TokenKind.lparen else left.head) ≠ _
    have hle := left.level_le
    split
    · exact nofun
    · exact hoperand (by omega)
  | conditional => exact absurd (Nat.succ_pos 5) hlevel
  | _ => exact hoperand rfl

theorem apart_enclosedIf {ps : List Piece} (h : ∀ rest, Ends rest → Apart ps rest) (c : Bool)
    {rest : List Rune} (hrest : Ends rest) : Apart (Expr.enclosedIf c ps) rest := by
  cases c with
  | false => exact h rest hrest
  | true =>
    refine apart_delimiter rfl (apart_append.mpr ⟨?_, apart_delimiter rfl trivial⟩)
    exact h _ (ends_piece (by decide) [] rest)

theorem apart_list {items : List (List Piece)} {rest : List Rune}
    (h : ∀ ps ∈ items, ∀ rest, Ends rest → Apart ps rest) (hrest : Ends rest) :
    Apart (separated [.mark .comma, .space] items) rest :=
  apart_separated h (fun rest => ends_piece (by decide) _ rest)
    (fun _ => apart_delimiter rfl (apart_space trivial)) hrest

/-- A member may follow an operand, also a number: its name does not start with a digit. -/
theorem ends_dot {name : Text} (h : Lexeme.IsName name) (rest : List Rune) :
    Ends (runes [.mark .dot, .name name] ++ rest) := by
  obtain ⟨cs, rfl, ⟨c, hc, hstart⟩, -⟩ := h
  obtain ⟨cs, rfl⟩ := List.head?_eq_some_iff.mp hc
  have hdigit : Scan.isDigit c = false := by
    refine Bool.eq_false_iff.mpr fun hdigit => ?_
    exact Bool.false_ne_true ((Scan.startsWord_of_isDigit hdigit).symm.trans hstart)
  have hname : Rune.decode (Piece.name (Rune.encode ((c :: cs).map .scalar))).text = _ :=
    Rune.decode_encode_scalar (c :: cs)
  rw [runes_cons, runes_cons, hname]
  change (!Scan.inWord '.' && !('.' == '.' && Scan.isDigit c)) = true
  rw [hdigit]
  rfl

/-- A sign and its operand are two tokens. -/
theorem apart_negation {operand : Expr} (h : operand.Legible)
    (hoperand : ∀ rest, Ends rest → Apart operand.pieces rest) {rest : List Rune}
    (hrest : Ends rest) :
    Apart (.mark .minus ::
      Expr.enclosedIf (operand.level < 6 || operand.isNegation) operand.pieces) rest := by
  have hapart := apart_enclosedIf hoperand (operand.level < 6 || operand.isNegation) hrest
  refine ⟨rfl, ?_, hapart⟩
  cases hc : decide (operand.level < 6) || operand.isNegation with
  | true => rfl
  | false =>
    rw [Bool.or_eq_false_iff, decide_eq_false_iff_not] at hc
    obtain ⟨l, ps, hpieces⟩ := operand.pieces_head h
    have hspelled := hoperand rest hrest
    rw [hpieces] at hspelled
    rw [show Expr.enclosedIf false operand.pieces = operand.pieces from rfl, hpieces, runes_cons,
      List.append_assoc]
    exact stops_minus hspelled.1 operand.startsExpression_head (Expr.head_ne_minus hc.1 hc.2) _

mutual

/-- The pieces of an expression stand apart. -/
theorem Expr.apart (e : Expr) (h : e.Legible) (rest : List Rune) (hrest : Ends rest) :
    Apart e.pieces rest := by
  cases e with
  | name => exact apart_name h hrest trivial
  | shot => exact apart_keyword (by decide) hrest trivial
  | int | float => exact ⟨h, hrest, trivial⟩
  | string value => exact ⟨Scan.quoted_encode h, rfl, trivial⟩
  | bool value => cases value <;> exact apart_keyword (by decide) hrest trivial
  | array elements =>
    refine apart_delimiter rfl (apart_append.mpr ⟨?_, apart_delimiter rfl trivial⟩)
    exact apart_list (Expr.apartAll elements h) (ends_piece (by decide) [] rest)
  | emptyArray type =>
    refine apart_append.mpr ⟨?_, apart_delimiter rfl (apart_delimiter rfl trivial)⟩
    exact type.apart h.1 _ (ends_piece (by decide) _ rest)
  | member object n =>
    refine apart_append.mpr ⟨?_, apart_delimiter rfl (apart_name h.2 hrest trivial)⟩
    exact apart_enclosedIf (Expr.apart object h.1) _ (ends_dot h.2 rest)
  | index object i =>
    refine apart_append.mpr ⟨?_, apart_delimiter rfl
      (apart_append.mpr ⟨?_, apart_delimiter rfl trivial⟩)⟩
    · exact apart_enclosedIf (Expr.apart object h.1) _ (ends_piece (by decide) _ rest)
    · exact Expr.apart i h.2 _ (ends_piece (by decide) [] rest)
  | call callee args =>
    refine apart_append.mpr ⟨?_, apart_delimiter rfl
      (apart_append.mpr ⟨?_, apart_delimiter rfl trivial⟩)⟩
    · exact apart_enclosedIf (Expr.apart callee h.1) _ (ends_piece (by decide) _ rest)
    · exact apart_list (Expr.apartAll args h.2) (ends_piece (by decide) [] rest)
  | unary op operand =>
    have hlegible : operand.Legible := h
    have hoperand := Expr.apart operand h
    cases op with
    | not => exact apart_mark_space rfl (apart_enclosedIf hoperand _ hrest)
    | neg => exact apart_negation hlegible hoperand hrest
  | binary op left right =>
    have hright := apart_enclosedIf (Expr.apart right h.2) (right.level < Expr.rightLevel op) hrest
    refine apart_append.mpr ⟨?_, apart_space (apart_mark_space (by cases op <;> rfl) hright)⟩
    exact apart_enclosedIf (Expr.apart left h.1) _ (ends_space _ rest)
  | conditional test consequent alternate =>
    have halternate := Expr.apart alternate h.2.2 rest hrest
    refine apart_append.mpr ⟨?_, apart_space (apart_mark_space rfl (apart_append.mpr
      ⟨?_, apart_space (apart_mark_space rfl halternate)⟩))⟩
    · exact apart_enclosedIf (Expr.apart test h.1) _ (ends_space _ rest)
    · exact Expr.apart consequent h.2.1 _ (ends_space _ rest)

theorem Expr.apartAll (es : List Expr) (h : Expr.LegibleAll es) :
    ∀ ps ∈ Expr.piecesOfAll es, ∀ rest, Ends rest → Apart ps rest := by
  cases es with
  | nil => nofun
  | cons e es => exact List.forall_mem_cons.mpr ⟨Expr.apart e h.1, Expr.apartAll es h.2⟩

end

end Exprs

section Stmts

theorem apart_line {ps : List Piece} (h : ∀ rest, Ends rest → Apart ps rest) (depth : Nat)
    (rest : List Rune) : Apart (formatLine depth ps) rest :=
  apart_indent depth (apart_append.mpr ⟨h _ (ends_newline [] rest), apart_newline trivial⟩)

theorem apart_closing (depth : Nat) (rest : List Rune) : Apart (closing depth) rest := by
  refine apart_line (fun rest _ => ?_) depth rest
  exact apart_delimiter rfl trivial

theorem apart_typedName {name : Text} {type : TypeExpr} (hname : Lexeme.IsName name)
    (htype : type.Legible) (rest : List Rune) (hrest : Ends rest) : Apart (typedName name type) rest :=
  apart_name hname (ends_piece (by decide) _ rest)
    (apart_delimiter rfl (apart_space (type.apart htype rest hrest)))

/-- An expression and the brace that opens a block. -/
theorem apart_opening {e : Expr} (h : e.Legible) (rest : List Rune) :
    Apart (e.pieces ++ [.space, .mark .lbrace]) rest :=
  apart_append.mpr ⟨e.apart h _ (ends_space _ rest), apart_space (apart_delimiter rfl trivial)⟩

theorem apart_functionHead {name : Text} {params : List Param} {result : Option TypeExpr}
    (hname : Lexeme.IsName name) (hparams : ∀ p ∈ params, p.Legible)
    (hresult : ∀ t ∈ result, t.Legible) (rest : List Rune) :
    Apart (functionHead name params result) rest := by
  refine apart_mark_space rfl (apart_name hname (ends_piece (by decide) _ rest)
    (apart_delimiter rfl (apart_append.mpr ⟨?_, apart_delimiter rfl (apart_append.mpr
      ⟨?_, apart_space (apart_delimiter rfl trivial)⟩)⟩)))
  · refine apart_list (fun ps hps => ?_) (ends_piece (by decide) _ rest)
    obtain ⟨p, hp, rfl⟩ := List.mem_map.mp hps
    exact apart_typedName (hparams p hp).1 (hparams p hp).2
  · cases result with
    | none => exact trivial
    | some t =>
      rw [Option.toList_some, List.flatMap_singleton]
      exact apart_space (apart_mark_space rfl (t.apart (hresult t rfl) _ (ends_space _ rest)))

theorem apart_fields {fields : List Field} (h : ∀ f ∈ fields, f.Legible) (depth : Nat)
    (rest : List Rune) :
    Apart (fields.flatMap fun f => formatLine depth (typedName f.name f.type)) rest := by
  induction fields with
  | nil => exact trivial
  | cons f fields ih =>
    obtain ⟨hf, hfields⟩ := List.forall_mem_cons.mp h
    exact apart_append.mpr ⟨apart_line (apart_typedName hf.1 hf.2) depth _, ih hfields⟩

mutual

/-- The pieces of a statement stand apart, whatever follows it. -/
theorem Stmt.apart (s : Stmt) (h : s.Legible) (depth : Nat) (rest : List Rune) :
    Apart (s.pieces depth) rest := by
  cases s with
  | declare name readOnly value =>
    refine apart_line (fun rest hrest => ?_) depth rest
    refine apart_mark_space (by cases readOnly <;> rfl) (apart_name h.1 (ends_space _ rest) ?_)
    exact apart_space (apart_mark_space rfl (value.apart h.2 rest hrest))
  | function f => exact Func.apart f h depth rest
  | cls name fields methods =>
    refine apart_append.mpr ⟨apart_append.mpr ⟨apart_append.mpr
      ⟨apart_line (fun rest _ => ?_) depth _, apart_fields h.2.1 _ _⟩, ?_⟩, apart_closing depth rest⟩
    · exact apart_mark_space rfl (apart_name h.1 (ends_space _ rest)
        (apart_space (apart_delimiter rfl trivial)))
    · exact Func.apartAll methods h.2.2 (depth + 1) _ _
  | assign target value =>
    refine apart_line (fun rest hrest => apart_append.mpr ⟨?_, ?_⟩) depth rest
    · exact target.apart h.1 _ (ends_space _ rest)
    · exact apart_space (apart_mark_space rfl (value.apart h.2 rest hrest))
  | bump op target =>
    refine apart_line (fun rest _ => apart_append.mpr ⟨target.apart h _ ?_, ?_⟩) depth rest
    · cases op <;> exact ends_piece (by decide) [] rest
    · cases op <;> exact apart_delimiter rfl trivial
  | branch b => exact apart_indent depth (Branch.apart b h depth rest)
  | loop test body =>
    refine apart_append.mpr ⟨apart_append.mpr ⟨apart_line (fun rest _ => ?_) depth _,
      Stmt.apartAll body h.2 (depth + 1) _⟩, apart_closing depth rest⟩
    exact apart_mark_space rfl (apart_opening h.1 rest)
  | forEach name namePos collection body =>
    refine apart_append.mpr ⟨apart_append.mpr ⟨apart_line (fun rest _ => ?_) depth _,
      Stmt.apartAll body h.2.2 (depth + 1) _⟩, apart_closing depth rest⟩
    exact apart_mark_space rfl (apart_name h.1 (ends_space _ rest)
      (apart_space (apart_mark_space rfl (apart_opening h.2.1 rest))))
  | leave =>
    refine apart_line (fun rest hrest => ?_) depth rest
    exact apart_keyword (by decide) hrest trivial
  | ret value =>
    cases value with
    | none =>
      refine apart_line (fun rest hrest => ?_) depth rest
      exact apart_keyword (by decide) hrest trivial
    | some value =>
      have hvalue : value.Legible := h value rfl
      refine apart_line (fun rest hrest => ?_) depth rest
      exact apart_mark_space rfl (value.apart hvalue rest hrest)
  | print value =>
    refine apart_line (fun rest hrest => ?_) depth rest
    exact apart_mark_space rfl (value.apart h rest hrest)
  | call callee args callPos =>
    exact apart_line (Expr.apart (.call callee args callPos) h) depth rest

theorem Func.apart (f : Func) (h : f.Legible) (depth : Nat) (rest : List Rune) :
    Apart (f.pieces depth) rest := by
  obtain ⟨name, params, result, body, bodyPos, pos⟩ := f
  refine apart_append.mpr ⟨apart_append.mpr ⟨apart_line (fun rest _ => ?_) depth _,
    Stmt.apartAll body h.2.2.2 (depth + 1) _⟩, apart_closing depth rest⟩
  exact apart_functionHead h.1 h.2.1 h.2.2.1 rest

theorem Branch.apart (b : Branch) (h : b.Legible) (depth : Nat) (rest : List Rune) :
    Apart (b.pieces depth) rest := by
  obtain ⟨test, body, bodyPos, otherwise, pos⟩ := b
  refine apart_mark_space rfl (apart_append.mpr ⟨test.apart h.1 _ (ends_space _ rest),
    apart_space (apart_delimiter rfl (apart_newline (apart_append.mpr ⟨?_, ?_⟩)))⟩)
  · exact Stmt.apartAll body h.2.1 (depth + 1) _
  · exact Otherwise.apart otherwise h.2.2 depth rest

theorem Otherwise.apart (o : Otherwise) (h : o.Legible) (depth : Nat) (rest : List Rune) :
    Apart (o.pieces depth) rest := by
  cases o with
  | nothing => exact apart_closing depth rest
  | block body =>
    refine apart_append.mpr ⟨apart_append.mpr ⟨apart_line (fun rest _ => ?_) depth _,
      Stmt.apartAll body h (depth + 1) _⟩, apart_closing depth rest⟩
    exact apart_delimiter rfl (apart_space (apart_mark_space rfl (apart_delimiter rfl trivial)))
  | chain next =>
    exact apart_indent depth (apart_delimiter rfl (apart_space (apart_mark_space rfl
      (Branch.apart next h depth rest))))

theorem Stmt.apartAll (body : List Stmt) (h : Stmt.LegibleAll body) (depth : Nat)
    (rest : List Rune) : Apart (Stmt.piecesOfAll depth body) rest := by
  cases body with
  | nil => exact trivial
  | cons s body =>
    exact apart_append.mpr ⟨Stmt.apart s h.1 depth _, Stmt.apartAll body h.2.2 depth rest⟩

theorem Func.apartAll (fs : List Func) (h : Func.LegibleAll fs) (depth : Nat) (apart : Bool)
    (rest : List Rune) : Apart (Func.piecesOfAll depth apart fs) rest := by
  cases fs with
  | nil => exact trivial
  | cons f fs =>
    refine apart_append.mpr ⟨apart_append.mpr ⟨?_, Func.apart f h.1 depth _⟩,
      Func.apartAll fs h.2 depth true rest⟩
    cases apart with
    | true => exact apart_newline trivial
    | false => exact trivial

end

end Stmts

namespace Program

theorem apart_piecesApart (body : List Stmt) (h : Stmt.LegibleAll body) (before : Option Stmt)
    (rest : List Rune) : Apart (Stmt.piecesApart before body) rest := by
  induction body generalizing before with
  | nil => exact trivial
  | cons s body ih =>
    refine apart_append.mpr ⟨apart_append.mpr ⟨?_, s.apart h.1 0 _⟩, ih h.2.2 (some s)⟩
    split
    · exact apart_newline trivial
    · exact trivial

theorem words_piecesApart (body : List Stmt) (before : Option Stmt) :
    words (Stmt.piecesApart before body) = Stmt.listWords 0 body := by
  induction body generalizing before with
  | nil => rfl
  | cons s body ih =>
    rw [Stmt.piecesApart, words_append, words_append, ih, Stmt.listWords_cons]
    split <;> rfl

/-- The canonical text of a legible program has the tokens of the program. -/
theorem tokenize_format {p : Program} (h : Stmt.LegibleAll p) :
    (Token.tokenize p.format).map Token.unplaced =
      Stmt.listWords 0 p ++ [⟨.eof, [], .start⟩] := by
  rw [format, pieces, tokenize_render (apart_piecesApart p h none []), words_piecesApart]

end Program

end Tree

end PeakLang
