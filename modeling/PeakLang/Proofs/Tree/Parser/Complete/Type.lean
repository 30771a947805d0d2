import PeakLang.Proofs.Tree.Parser.Progress
import PeakLang.Proofs.Tree.Reread
import PeakLang.Proofs.Tree.Words

namespace PeakLang.Tree.Parser

variable {α β : Type} {rest : List Token} {faults : List (Fault × Pos)}

/-- The state before some tokens at the end of a source. -/
abbrev upTo (rest : List Token) (faults : List (Fault × Pos)) : State :=
  ⟨rest, ⟨.eof, [], .start⟩, faults⟩

theorem ends : (upTo rest faults).last.kind = .eof := rfl

/-- The kind of the token that comes next. -/
def following (rest : List Token) : TokenKind := (upTo rest []).current.kind

@[simp]
theorem following_cons (t : Token) : following (t :: rest) = t.kind := rfl

section Steps

variable {s s' : State} {t : Token} {k : TokenKind}

theorem current_upTo_cons : (upTo (t :: rest) faults).current = t := rfl

theorem advanced_upTo_cons :
    (upTo (t :: rest) faults).advanced = (upTo rest faults) := rfl

theorem bind_of_run {p : Parse α} {f : α → Parse β} {a : α} (h : @Eq (α × State) (p s) (a, s')) :
    (p >>= f) s = f a s' := by
  rw [bind_run, h]

theorem map_of_run {p : Parse α} {f : α → β} {a : α} (h : @Eq (α × State) (p s) (a, s')) :
    @Eq (β × State) ((f <$> p) s) (f a, s') :=
  congrArg (Prod.map f id) h

variable {f : Token → Parse β}

theorem current_cons_bind :
    (current >>= f) (upTo (t :: rest) faults) = f t (upTo (t :: rest) faults) := rfl

theorem advance_cons_bind :
    (advance >>= f) (upTo (t :: rest) faults) = f t (upTo rest faults) := rfl

theorem expect_cons_bind (h : t.kind = k) :
    (expect k >>= f) (upTo (t :: rest) faults) = f t (upTo rest faults) := by
  subst h
  rw [bind_run, expect_run]
  simp [State.current, State.advanced]

theorem expect_sign_bind :
    (expect k >>= f) (upTo (.sign k :: rest) faults) = f (.sign k) (upTo rest faults) :=
  expect_cons_bind rfl

theorem expect_word_bind {name : Text} :
    (expect .ident >>= f) (upTo (.word name :: rest) faults) =
      f (.word name) (upTo rest faults) :=
  expect_cons_bind rfl

theorem accept_sign_bind {f : Bool → Parse β} :
    (accept k >>= f) (upTo (.sign k :: rest) faults) = f true (upTo rest faults) := by
  rw [bind_run, accept_run]
  simp [State.current, State.advanced]

theorem accept_bind_of_ne {f : Bool → Parse β} (h : following rest ≠ k) :
    (accept k >>= f) (upTo rest faults) = f false (upTo rest faults) := by
  have hkind : ((upTo rest faults).current.kind == k) = false := beq_eq_false_iff_ne.mpr h
  rw [bind_run, accept_run, hkind]
  rfl

theorem accept_sign_bind_of_ne {f : Bool → Parse β} {k' : TokenKind} (h : k' ≠ k) :
    (accept k >>= f) (upTo (.sign k' :: rest) faults) = f false (upTo (.sign k' :: rest) faults) :=
  accept_bind_of_ne h

theorem at?_bind {f : Bool → Parse β} :
    (at? k >>= f) (upTo rest faults) = f (following rest == k) (upTo rest faults) := rfl

theorem optionals_following {type : TypeExpr} (h : following rest ≠ .question) :
    optionals type (upTo rest faults) = (type, (upTo rest faults)) := optionals_of_ne h

theorem optionals_sign {type : TypeExpr} (h : k ≠ .question) :
    optionals type (upTo (.sign k :: rest) faults) = (type, (upTo (.sign k :: rest) faults)) :=
  optionals_of_ne h

end Steps

/-- An expression starts with its head. -/
theorem following_words {e : Expr} (h : e.Legible) : following (e.words ++ rest) = e.head := by
  obtain ⟨t, ts, hwords, hkind, -⟩ := e.opens_words h
  rw [hwords, List.cons_append, following_cons, hkind]

theorem following_listWords {e : Expr} {es : List Expr} (h : e.Legible) :
    following (Expr.listWords (e :: es) ++ rest) = e.head := by
  cases es with
  | nil => rw [Expr.listWords_singleton, following_words h]
  | cons e' es => rw [Expr.listWords_cons_cons, List.append_assoc, following_words h]

theorem head_ne (e : Expr) {k : TokenKind} (h : startsExpression k = false) : e.head ≠ k := by
  rintro rfl
  exact nomatch h.symm.trans e.startsExpression_head

section Types

mutual

/-- The tokens of a type are read as the type, and then its further marks `?` are. A function type
takes such marks as marks of its result. -/
theorem type_optionals (t : TypeExpr) (h : t.Legible) (rest : List Token)
    (hrest : t.isFunction = true → following rest ≠ .question) :
    type (upTo (t.words ++ rest) faults) = optionals t.unplaced (upTo rest faults) := by
  cases t with
  | named name pos => exact type_eq ends
  | array base pos =>
    have hbase := type_optionals base h (.sign .rbracket :: rest) fun _ => nofun
    rw [optionals_sign (by decide)] at hbase
    rw [TypeExpr.words_array, type_eq ends, typeRule]
    simp only [List.cons_append, List.append_assoc, List.nil_append]
    rw [current_cons_bind]
    simp only [Token.kind_sign]
    rw [advance_cons_bind, bind_of_run hbase, expect_sign_bind]
    rfl
  | optional base pos =>
    have hbase := type_optionals base h.1 (.sign .question :: rest)
      fun hf => nomatch h.2.symm.trans hf
    rw [optionals_question rfl] at hbase
    rw [TypeExpr.words_optional, List.append_assoc]
    exact hbase
  | function params result pos =>
    have hends := hrest rfl
    have hresult := type_optionals result h.2 rest fun _ => hends
    rw [optionals_following hends] at hresult
    rw [TypeExpr.words_function, type_eq ends, typeRule]
    simp only [List.cons_append, List.append_assoc]
    rw [current_cons_bind]
    simp only [Token.kind_sign]
    rw [advance_cons_bind, at?_bind]
    cases params with
    | nil =>
      rw [TypeExpr.listWords_nil, List.nil_append, following_cons, Token.kind_sign, beq_self_eq_true,
        if_pos rfl, bind_of_run (pure_run _ _), expect_sign_bind, expect_sign_bind,
        bind_of_run hresult]
      rfl
    | cons first more =>
      have hparams := types_words (first :: more) h.1 nofun
        (.sign .rparen :: .sign .arrow :: (result.words ++ rest)) rfl
      obtain ⟨t, ts, hwords, hkind⟩ := TypeExpr.listWords_head first more
      have hopen : (following (TypeExpr.listWords (first :: more) ++
          .sign .rparen :: .sign .arrow :: (result.words ++ rest)) == .rparen) = false := by
        rw [hwords, List.cons_append, following_cons]
        exact beq_eq_false_iff_ne.mpr hkind
      rw [hopen, if_neg Bool.false_ne_true, bind_of_run hparams, expect_sign_bind,
        expect_sign_bind, bind_of_run hresult]
      rfl

theorem types_words (ts : List TypeExpr) (h : TypeExpr.LegibleAll ts) (hne : ts ≠ [])
    (rest : List Token) (hrest : following rest = .rparen) :
    types (upTo (TypeExpr.listWords ts ++ rest) faults) =
      (TypeExpr.unplacedAll ts, upTo rest faults) := by
  match ts, hne with
  | [t], _ =>
    have hquestion : following rest ≠ .question := by rw [hrest]; nofun
    have hcomma : following rest ≠ .comma := by rw [hrest]; nofun
    have ht := type_optionals t h.1 rest fun _ => hquestion
    rw [optionals_following hquestion] at ht
    rw [TypeExpr.listWords_singleton, types_eq ends, separated, bind_of_run ht,
      accept_bind_of_ne hcomma]
    rfl
  | t :: t' :: more, _ =>
    have ht := type_optionals t h.1 (.sign .comma :: (TypeExpr.listWords (t' :: more) ++ rest))
      fun _ => nofun
    rw [optionals_sign (by decide)] at ht
    have hmore := types_words (t' :: more) h.2 nofun rest hrest
    rw [TypeExpr.listWords_cons_cons, List.append_assoc, List.cons_append, types_eq ends, separated,
      bind_of_run ht, accept_sign_bind, if_pos rfl, bind_of_run hmore]
    rfl

end

theorem type_words (t : TypeExpr) (h : t.Legible) (rest : List Token)
    (hrest : following rest ≠ .question) :
    type (upTo (t.words ++ rest) faults) = (t.unplaced, upTo rest faults) := by
  rw [type_optionals t h rest fun _ => hrest, optionals_following hrest]

end Types

section TypeLike

theorem legible_asType {e : Expr} (h : e.Legible) (htype : e.isTypeLike = true) :
    e.asType.Legible := by
  fun_induction Expr.isTypeLike e with
  | case1 => exact h
  | case2 e pos ih => exact ih h.1 htype
  | case3 => exact nomatch htype

theorem unplaced_asType (e : Expr) : e.asType.unplaced = e.asType := by
  fun_induction Expr.asType e with
  | case1 => rfl
  | case2 e pos ih => rw [TypeExpr.unplaced, ih]
  | case3 => rfl

theorem isFunction_asType (e : Expr) : e.asType.isFunction = false := by
  fun_cases Expr.asType e <;> rfl

theorem type_typeLike {e : Expr} (h : e.Legible) (htype : e.isTypeLike = true) (rest : List Token) :
    type (upTo (e.words ++ rest) faults) = optionals e.asType (upTo rest faults) := by
  have hwords : e.words = e.asType.words := by rw [Expr.words, TypeExpr.words, Expr.pieces_asType htype]
  rw [hwords, type_optionals e.asType (legible_asType h htype) rest
    (fun hf => nomatch (isFunction_asType e).symm.trans hf), unplaced_asType]

/-- The tokens that may follow a type inside another. -/
def closesType (k : TokenKind) : Bool := k == .rbracket || k == .comma || k == .rparen

theorem closesType_eq_false_iff {k : TokenKind} :
    closesType k = false ↔ k ≠ .rbracket ∧ k ≠ .comma ∧ k ≠ .rparen := by
  simp [closesType, and_assoc]

variable {s' : State} {t : TypeExpr}

theorem reads_type_iff {s : State} (hlast : s.last.kind = .eof) :
    Reads type s t s' ↔ Reads (typeRule type types) s t s' := by
  rw [Reads, Reads, type_eq hlast]

/-- The tokens with which a type may start. -/
def startsType (k : TokenKind) : Bool := k == .ident || k == .lbracket || k == .lparen

theorem not_reads_type {ts : List Token} (hstarts : startsType (following ts) = false) :
    ¬ Reads type (upTo ts faults) t s' := by
  intro h
  change startsType (upTo ts faults).current.kind = false at hstarts
  rw [reads_type_iff ends, typeRule, reads_current_bind] at h
  split at h
  case h_4 => simp only [reads_bind, not_reads_unexpected, false_and, exists_false] at h
  all_goals
    rename_i hkind
    rw [hkind] at hstarts
    cases hstarts

/-- If a type is read from the tokens of an expression, then it is the expression, or it does not end
where a type may end inside another. -/
structure TypeOrOpen (e : Expr) : Prop where
  of_reads : ∀ {rest faults t s'}, Reads type (upTo (e.words ++ rest) faults) t s' →
    (e.isTypeLike = true ∧ Reads (optionals e.asType) (upTo rest faults) t s') ∨
      closesType s'.current.kind = false

namespace TypeOrOpen

variable {e : Expr} {k : TokenKind}

theorem before_sign (h : TypeOrOpen e) (hk : k ≠ .question)
    (hread : Reads type (upTo (e.words ++ .sign k :: rest) faults) t s') :
    s' = upTo (.sign k :: rest) faults ∨ closesType s'.current.kind = false := by
  obtain ⟨-, hread⟩ | hopen := h.of_reads hread
  · rw [Reads, optionals_sign hk] at hread
    exact .inl (Prod.mk.inj hread.1).2.symm
  · exact .inr hopen

/-- An expression in parentheses is no list of parameters. -/
theorem not_enclosed (h : TypeOrOpen e) (hlegible : e.Legible) (hk : k ≠ .arrow) :
    ¬ Reads type (upTo (e.operandWords true ++ .sign k :: rest) faults) t s' := by
  intro hread
  rw [Expr.operandWords_true] at hread
  simp only [List.cons_append, List.append_assoc, List.nil_append] at hread
  rw [reads_type_iff ends, typeRule, reads_current_bind] at hread
  simp only [current_upTo_cons, advanced_upTo_cons, Token.kind_sign, reads_advance_bind,
    reads_at?_bind, reads_ite, reads_pure_bind] at hread
  obtain ⟨hclose, -⟩ | ⟨-, hread⟩ := hread
  · refine head_ne e (k := .rparen) rfl ?_
    rw [← following_words hlegible]
    exact beq_iff_eq.mp hclose
  · rw [reads_bind] at hread
    obtain ⟨params, s₁, hparams, hread⟩ := hread
    rw [reads_expect_bind, reads_expect_bind] at hread
    obtain ⟨hclose, harrow, -⟩ := hread
    rw [Reads, types_eq ends, ← Reads, separated, reads_bind] at hparams
    obtain ⟨first, s₂, hfirst, hparams⟩ := hparams
    rw [reads_accept_bind] at hparams
    obtain hs₂ | hopen := h.before_sign (by decide) hfirst
    · subst hs₂
      obtain ⟨hcomma, -⟩ | ⟨-, hparams⟩ := hparams
      · cases hcomma
      · obtain ⟨-, rfl⟩ := reads_pure.mp hparams
        exact hk harrow
    · obtain ⟨-, hcomma, hparen⟩ := closesType_eq_false_iff.mp hopen
      obtain ⟨hcomma', -⟩ | ⟨-, hparams⟩ := hparams
      · exact hcomma hcomma'
      · obtain ⟨-, rfl⟩ := reads_pure.mp hparams
        exact hparen hclose

/-- What follows an operand is no place where a type may end. -/
theorem operand (h : TypeOrOpen e) (hlegible : e.Legible) {enclosed : Bool}
    (hk : (closesType k || k == .arrow || k == .question) = false)
    (hread : Reads type (upTo (e.operandWords enclosed ++ .sign k :: rest) faults) t s') :
    closesType s'.current.kind = false := by
  simp only [Bool.or_eq_false_iff, beq_eq_false_iff_ne] at hk
  obtain ⟨⟨hk, harrow⟩, hquestion⟩ := hk
  cases enclosed with
  | true => exact absurd hread (h.not_enclosed hlegible harrow)
  | false =>
    obtain rfl | hopen := h.before_sign hquestion hread
    · exact hk
    · exact hopen

end TypeOrOpen

/-- An array literal that is not written as a type is not read as one. -/
theorem not_reads_type_array {elements : List Expr} {pos : Pos}
    (h : ∀ e ∈ elements, TypeOrOpen e) (htype : (Expr.array elements pos).isTypeLike = false) :
    ¬ Reads type (upTo ((Expr.array elements pos).words ++ rest) faults) t s' := by
  intro hread
  rw [Expr.words_array] at hread
  simp only [List.cons_append, List.append_assoc, List.nil_append] at hread
  rw [reads_type_iff ends, typeRule, reads_current_bind] at hread
  simp only [current_upTo_cons, advanced_upTo_cons, Token.kind_sign, reads_advance_bind] at hread
  rw [reads_bind] at hread
  obtain ⟨base, s₁, hbase, hread⟩ := hread
  rw [reads_expect_bind] at hread
  obtain ⟨hclose, -⟩ := hread
  have hopen : closesType s₁.current.kind = false → False := fun hopen =>
    (closesType_eq_false_iff.mp hopen).1 hclose
  cases elements with
  | nil => exact not_reads_type rfl hbase
  | cons e more =>
    cases more with
    | nil =>
      rw [Expr.listWords_singleton] at hbase
      obtain ⟨htype', -⟩ | hopen' := (h e (by simp)).of_reads hbase
      · exact nomatch htype.symm.trans htype'
      · exact hopen hopen'
    | cons e' more =>
      rw [Expr.listWords_cons_cons, List.append_assoc, List.cons_append] at hbase
      obtain rfl | hopen' := (h e (by simp)).before_sign (by decide) hbase
      · exact nomatch hclose
      · exact hopen hopen'

mutual

theorem typeOrOpen (e : Expr) (h : e.Legible) : TypeOrOpen e := by
  constructor
  intro rest faults t s' hread
  by_cases htype : e.isTypeLike = true
  · rw [Reads, type_typeLike h htype rest] at hread
    exact .inl ⟨htype, hread⟩
  refine .inr ?_
  cases e with
  | name => exact absurd rfl htype
  | shot | int | float | string => exact absurd hread (not_reads_type rfl)
  | bool value => cases value <;> exact absurd hread (not_reads_type rfl)
  | array elements pos =>
    exact absurd hread (not_reads_type_array (typeOrOpenAll elements h) (Bool.eq_false_iff.mpr htype))
  | emptyArray type pos =>
    rw [Expr.words_emptyArray] at hread
    simp only [List.append_assoc, List.cons_append, List.nil_append] at hread
    rw [Reads, type_words type h.1 (.sign .lparen :: .sign .rparen :: rest) nofun] at hread
    obtain ⟨-, rfl⟩ := Prod.mk.inj hread.1
    rfl
  | member object n =>
    rw [Expr.words_member, List.append_assoc] at hread
    exact (typeOrOpen object h.1).operand h.1 (k := .dot) rfl hread
  | index object i =>
    rw [Expr.words_index, List.append_assoc] at hread
    exact (typeOrOpen object h.1).operand h.1 (k := .lbracket) rfl hread
  | call callee args =>
    rw [Expr.words_call, List.append_assoc] at hread
    exact (typeOrOpen callee h.1).operand h.1 (k := .lparen) rfl hread
  | unary op operand =>
    rw [Expr.words_unary, List.cons_append] at hread
    cases op <;> exact absurd hread (not_reads_type rfl)
  | binary op left right =>
    rw [Expr.words_binary, List.append_assoc] at hread
    exact (typeOrOpen left h.1).operand h.1 (k := op.token) (by cases op <;> rfl) hread
  | conditional test consequent alternate =>
    rw [Expr.words_conditional, List.append_assoc] at hread
    -- A name before the question mark is read with it, as an optional type.
    cases henclosed : decide (test.level < 1) with
    | true =>
      rw [henclosed] at hread
      exact absurd hread ((typeOrOpen test h.1).not_enclosed h.1 (k := .question) nofun)
    | false =>
      rw [henclosed, Expr.operandWords_false] at hread
      obtain ⟨-, hread⟩ | hopen := (typeOrOpen test h.1).of_reads hread
      · rw [List.cons_append, List.append_assoc, Reads, optionals_question rfl,
          optionals_following (following_words h.2.1 ▸ head_ne _ rfl)] at hread
        obtain ⟨-, rfl⟩ := Prod.mk.inj hread.1
        change closesType (following _) = false
        rw [following_words h.2.1, closesType_eq_false_iff]
        exact ⟨head_ne _ rfl, head_ne _ rfl, head_ne _ rfl⟩
      · exact hopen

theorem typeOrOpenAll (es : List Expr) (h : Expr.LegibleAll es) : ∀ e ∈ es, TypeOrOpen e := by
  cases es with
  | nil => nofun
  | cons e rest => exact List.forall_mem_cons.mpr ⟨typeOrOpen e h.1, typeOrOpenAll rest h.2⟩

end

end TypeLike

section EmptyArrays

/-- Whether no `()` comes next, with or without marks `?` before it. -/
def NoCall (rest : List Token) : Prop :=
  let more := rest.dropWhile fun t => t.kind == .question
  following more = .lparen → following more.tail ≠ .rparen

theorem noCall_of_following (hquestion : following rest ≠ .question)
    (hparen : following rest ≠ .lparen) : NoCall rest := by
  have hmore : (rest.dropWhile fun t => t.kind == .question) = rest := by
    cases rest with
    | nil => rfl
    | cons t rest => exact List.dropWhile_cons_of_neg (by simpa using hquestion)
  rw [NoCall, hmore]
  exact fun h => absurd h hparen

theorem noCall_sign {k : TokenKind} (hquestion : k ≠ .question) (hparen : k ≠ .lparen) :
    NoCall (.sign k :: rest) :=
  noCall_of_following hquestion hparen

theorem noCall_question {e : Expr} (h : e.Legible) :
    NoCall (.sign .question :: (e.words ++ rest)) := by
  obtain ⟨t, ts, hwords, hkind, hopen⟩ := e.opens_words h
  have hquestion : t.kind ≠ .question := hkind ▸ head_ne e rfl
  rw [NoCall, hwords, List.cons_append, List.dropWhile_cons_of_pos (by rfl),
    List.dropWhile_cons_of_neg (by simpa using hquestion)]
  intro hparen
  obtain ⟨t', ts', rfl, hclose⟩ := hopen (hkind ▸ hparen)
  exact hclose

theorem noCall_args {e : Expr} {es : List Expr} (h : e.Legible) :
    NoCall (.sign .lparen :: (Expr.listWords (e :: es) ++ rest)) := by
  rw [NoCall, List.dropWhile_cons_of_neg (by decide)]
  exact fun _ => following_listWords (e := e) h ▸ head_ne e rfl

theorem speculate_none {p : Parse (Option α)} {s : State}
    (h : ∀ a s', ¬ Reads p { s with faults := [] } (some a) s') : speculate p s = (none, s) := by
  rw [speculate_run]
  split
  case h_1 a after hp =>
    split
    case isTrue hempty => exact absurd ⟨hp, by simpa using hempty⟩ (h a after)
    case isFalse => rfl
  case h_2 => rfl

theorem emptyArray?_words {t : TypeExpr} (h : t.Legible) (harray : t.isArrayLike = true) :
    emptyArray? (upTo (t.words ++ .sign .lparen :: .sign .rparen :: rest) faults) =
      (some (.emptyArray t.unplaced .start), (upTo rest faults)) := by
  obtain ⟨ts, hts⟩ := TypeExpr.words_head_of_isArrayLike harray
  have hpos : (upTo (t.words ++ .sign .lparen :: .sign .rparen :: rest) faults).current.pos =
      .start := by rw [hts]; rfl
  have htype (faults : List (Fault × Pos)) :
      type (upTo (t.words ++ .sign .lparen :: .sign .rparen :: rest) faults) =
        (t.unplaced, (upTo (.sign .lparen :: .sign .rparen :: rest) faults)) :=
    type_words t h _ nofun
  rw [emptyArray?, bind_of_run (current_run _)]
  simp only [hpos]
  rw [speculate_run]
  simp only
  rw [bind_of_run (htype []), accept_sign_bind, if_pos rfl, accept_sign_bind, if_pos rfl]
  rfl

/-- An array literal is not read as an empty array, unless it is written as a type is and `()` follows
it. -/
theorem emptyArray?_array {elements : List Expr} {pos : Pos} (h : Expr.LegibleAll elements)
    (hcall : (Expr.array elements pos).isTypeLike = true → NoCall rest) :
    emptyArray? (upTo ((Expr.array elements pos).words ++ rest) faults) =
      (none, (upTo ((Expr.array elements pos).words ++ rest) faults)) := by
  rw [emptyArray?, bind_of_run (current_run _)]
  refine speculate_none fun a s' hread => ?_
  dsimp only at hread
  simp only [reads_bind (p := type), reads_accept_bind, if_true, Bool.false_eq_true, if_false,
    reads_pure, reduceCtorEq, false_and, and_false, or_false, Option.some.injEq] at hread
  obtain ⟨t, s₁, htype, hopen, hclose, -⟩ := hread
  by_cases hlike : (Expr.array elements pos).isTypeLike = true
  · have hlegible : (Expr.array elements pos).Legible := h
    rw [Reads, type_typeLike hlegible hlike rest, optionals_run] at htype
    obtain ⟨-, rfl⟩ := Prod.mk.inj htype.1
    exact hcall hlike hopen hclose
  · exact not_reads_type_array (typeOrOpenAll elements h) (Bool.eq_false_iff.mpr hlike) htype

end EmptyArrays

end PeakLang.Tree.Parser
