import PeakLang.Proofs.Token.StringLiteral
import PeakLang.Proofs.Tree.Parser.Complete.Type

namespace PeakLang.Tree

namespace Expr

/-- Whether a comparison was read by the time an expression has been read, at the level of its own
operators. -/
def compared : Expr → Bool
  | binary op left _ _ => (!decide (left.level < leftLevel op) && left.compared) || op.isComparison
  | _ => false

theorem level_le_leftLevel (op : BinaryOp) : op.level ≤ leftLevel op := by
  cases op <;> decide

theorem level_of_compared {e : Expr} (h : e.compared = true) : e.level ≤ 3 := by
  cases e with
  | binary op left =>
    rw [compared, Bool.or_eq_true, Bool.and_eq_true] at h
    obtain ⟨hleft, hcompared⟩ | hop := h
    · have hlevel := level_of_compared hcompared
      have hle := level_le_leftLevel op
      have hge : leftLevel op ≤ left.level := by simpa using hleft
      exact Nat.le_trans hle (Nat.le_trans hge hlevel)
    · cases op with
      | lt | gt | leq | geq | eq | neq => exact Nat.le_refl 3
      | _ => exact nomatch hop
  | _ => exact nomatch h

end Expr

namespace Parser

variable {rest : List Token} {faults : List (Fault × Pos)}

variable {k : TokenKind}

theorem endsOperation_mono {level level' : Nat} (hle : level ≤ level')
    (h : endsOperation level k = true) : endsOperation level' k = true := by
  rw [endsOperation, Bool.and_eq_true] at h ⊢
  refine ⟨h.1, ?_⟩
  cases hop : BinaryOp.ofToken? k with
  | none => rfl
  | some op =>
    rw [hop] at h
    have hlt : op.level < level := by simpa using h.2
    simpa using Nat.lt_of_lt_of_le hlt hle

theorem endsFactor_of_endsOperation {level : Nat} (h : endsOperation level k = true) :
    endsFactor k = true := by
  rw [endsOperation, Bool.and_eq_true] at h
  exact h.1

theorem endsAccess_of_endsFactor (h : endsFactor k = true) : endsAccess k = true := by
  rw [endsFactor, Bool.and_eq_true] at h
  exact h.1

theorem endsOperation_of_endsExpression (h : endsExpression k = true) :
    endsOperation 1 k = true := by
  rw [endsExpression, Bool.and_eq_true] at h
  exact h.1

theorem ne_question_of_endsExpression (h : endsExpression k = true) :
    k ≠ .question := by
  rintro rfl
  exact nomatch h

theorem noCall_of_endsExpression (h : endsExpression (following rest) = true) :
    NoCall rest := by
  refine noCall_of_following (ne_question_of_endsExpression h) fun hparen => ?_
  rw [hparen] at h
  exact nomatch h

/-- An operand that is complete stays as it is. -/
theorem accesses_stop {object : Expr} (h : endsAccess (following rest) = true) :
    accesses object (upTo rest faults) = (object, upTo rest faults) := by
  rw [accesses_eq ends, accessesRule, bind_of_run (current_run _)]
  change endsAccess (upTo rest faults).current.kind = true at h
  refine congrFun (?_ : _ = (pure object : Parse Expr)) _
  split
  case h_1 hkind | h_2 hkind | h_3 hkind =>
    rw [hkind] at h
    exact nomatch h
  case h_4 => rfl

/-- An operation that is complete stays as it is. -/
theorem operations_stop {level : Nat} {compared : Bool} {left : Expr}
    (h : endsOperation level (following rest) = true) :
    operations level compared left (upTo rest faults) = (left, upTo rest faults) := by
  have hnone : operatorFrom? level (upTo rest faults).current.kind = none := by
    rw [endsOperation, Bool.and_eq_true] at h
    change operatorFrom? level (following rest) = none
    unfold operatorFrom?
    split
    case h_1 => rfl
    case h_2 op _ hop =>
      rw [hop] at h
      exact if_neg (by simpa using h.2)
    case h_3 => rfl
  rw [operations_eq ends, operationsRule, bind_of_run (current_run _)]
  simp only [hnone]
  rfl

/-- The tokens of an expression are read as an operand, to which more may be added. -/
def AccessBack (e : Expr) : Prop :=
  ∀ rest faults, (e.isArrayType = true → NoCall rest) →
    access (upTo (e.words ++ rest) faults) = accesses e.reread (upTo rest faults)

/-- The tokens of an expression are read as an operand with operators before it, or as a power. -/
def FactorBack (e : Expr) : Prop :=
  ∀ rest faults, endsFactor (following rest) = true → NoCall rest →
    factor (upTo (e.words ++ rest) faults) = (e.reread, upTo rest faults)

/-- The tokens of an expression are read as operands with operators between them, to which more may
be added. -/
def OperationBack (e : Expr) : Prop :=
  ∀ level rest faults, level ≤ e.level → endsOperation (e.level + 1) (following rest) = true →
    NoCall rest → operation level (upTo (e.words ++ rest) faults) =
      operations level e.compared e.reread (upTo rest faults)

/-- The tokens of an expression are read as the expression. -/
def ExpressionBack (e : Expr) : Prop :=
  ∀ rest faults, endsExpression (following rest) = true →
    expression (upTo (e.words ++ rest) faults) = (e.reread, upTo rest faults)

/-- The tokens of an expression are read as the expression, by every parser that its level lets read
it. -/
structure ReadsBack (e : Expr) : Prop where
  legible : e.Legible
  access : e.level = 7 → AccessBack e
  factor : 6 ≤ e.level → FactorBack e
  operation : 1 ≤ e.level → OperationBack e
  expression : ExpressionBack e

section Lifts

variable {e : Expr}

/-- An operand is read as a factor, if no operator stands before it and no power follows. -/
theorem factor_of_access {tokens : List Token}
    (hunary : UnaryOp.ofToken? (following tokens) = none)
    (haccess : access (upTo tokens faults) = accesses e (upTo rest faults))
    (hends : endsFactor (following rest) = true) :
    factor (upTo tokens faults) = (e, upTo rest faults) := by
  rw [accesses_stop (endsAccess_of_endsFactor hends)] at haccess
  have hnone : UnaryOp.ofToken? (upTo tokens faults).current.kind = none := hunary
  have hpower : (following rest == .power) = false := by
    rw [endsFactor, Bool.and_eq_true] at hends
    simpa using hends.2
  rw [factor_eq ends, factorRule, bind_of_run (current_run _)]
  simp only [hnone]
  rw [bind_of_run haccess, bind_of_run (current_run _)]
  exact congrFun (if_neg (Bool.eq_false_iff.mp hpower)) _

theorem AccessBack.factor (h : AccessBack e) (hlegible : e.Legible) (hlevel : e.level = 7) :
    FactorBack e := by
  intro rest faults hends hcall
  refine factor_of_access ?_ (h rest faults fun _ => hcall) hends
  rw [following_words hlegible]
  exact Expr.unary_ofToken?_head hlevel

theorem compared_eq_false (hlevel : 6 ≤ e.level) : e.compared = false :=
  Bool.eq_false_iff.mpr fun h => absurd (Expr.level_of_compared h) (by omega)

theorem FactorBack.operation (h : FactorBack e) (hlevel : 6 ≤ e.level) : OperationBack e := by
  intro level rest faults _ hends hcall
  have hfactor := h rest faults (endsFactor_of_endsOperation hends) hcall
  rw [operation_eq ends, operationRule, bind_of_run hfactor, compared_eq_false hlevel]

theorem OperationBack.expression (h : OperationBack e) (hlevel : 1 ≤ e.level) :
    ExpressionBack e := by
  intro rest faults hends
  have hends' := endsOperation_of_endsExpression hends
  have hoperation := h 1 rest faults hlevel (endsOperation_mono (by omega) hends')
    (noCall_of_endsExpression hends)
  rw [operations_stop hends'] at hoperation
  rw [expression_eq ends, expressionRule, bind_of_run hoperation,
    accept_bind_of_ne (ne_question_of_endsExpression hends)]
  rfl

theorem ReadsBack.of_access (h : AccessBack e) (hlegible : e.Legible) (hlevel : e.level = 7) :
    ReadsBack e where
  legible := hlegible
  access _ := h
  factor _ := h.factor hlegible hlevel
  operation _ := (h.factor hlegible hlevel).operation (by omega)
  expression := ((h.factor hlegible hlevel).operation (by omega)).expression (by omega)

theorem ReadsBack.of_factor (h : FactorBack e) (hlegible : e.Legible) (hlevel : e.level = 6) :
    ReadsBack e where
  legible := hlegible
  access _ := by omega
  factor _ := h
  operation _ := h.operation (by omega)
  expression := (h.operation (by omega)).expression (by omega)

theorem ReadsBack.of_operation (h : OperationBack e) (hlegible : e.Legible) (hlevel : 1 ≤ e.level)
    (hlevel' : e.level ≤ 5) : ReadsBack e where
  legible := hlegible
  access _ := by omega
  factor _ := by omega
  operation _ := h
  expression := h.expression hlevel

theorem ReadsBack.of_expression (h : ExpressionBack e) (hlegible : e.Legible) (hlevel : e.level = 0) :
    ReadsBack e where
  legible := hlegible
  access _ := by omega
  factor _ := by omega
  operation _ := by omega
  expression := h

end Lifts

namespace ReadsBack

variable {e : Expr} {c : Bool}

section Operands

theorem access_enclosed (h : ReadsBack e) :
    Parser.access (upTo (e.operandWords true ++ rest) faults) = accesses e.reread (upTo rest faults) := by
  have hinner := h.expression (.sign .rparen :: rest) faults rfl
  have hprimary : primary (upTo (.sign .lparen :: (e.words ++ .sign .rparen :: rest)) faults) =
      (e.reread, upTo rest faults) := by
    rw [primary_eq ends, primaryRule, current_cons_bind]
    simp only [Token.kind_sign]
    rw [advance_cons_bind, bind_of_run hinner, expect_sign_bind]
    rfl
  rw [Expr.operandWords_true]
  simp only [List.cons_append, List.append_assoc, List.nil_append]
  rw [access_eq ends, accessRule, bind_of_run hprimary]

theorem access_operand (h : ReadsBack e) (hcall : e.isArrayType = true → NoCall rest) :
    Parser.access (upTo (e.operandWords (e.level < 7) ++ rest) faults) =
      accesses e.reread (upTo rest faults) := by
  by_cases hlevel : e.level < 7
  · rw [decide_eq_true hlevel]
    exact h.access_enclosed
  · rw [decide_eq_false hlevel, Expr.operandWords_false]
    have hle := e.level_le
    exact h.access (by omega) rest faults hcall

theorem factor_operand (h : ReadsBack e) (henclosed : c = false → 6 ≤ e.level)
    (hends : endsFactor (following rest) = true) (hcall : NoCall rest) :
    Parser.factor (upTo (e.operandWords c ++ rest) faults) = (e.reread, upTo rest faults) := by
  cases c with
  | false => exact h.factor (henclosed rfl) rest faults hends hcall
  | true =>
    refine factor_of_access ?_ h.access_enclosed hends
    rw [Expr.operandWords_true]
    rfl

theorem operation_operand (level : Nat) (h : ReadsBack e)
    (henclosed : c = false → 1 ≤ e.level ∧ level ≤ e.level)
    (hends : endsOperation (if c then 7 else e.level + 1) (following rest) = true)
    (hcall : NoCall rest) :
    Parser.operation level (upTo (e.operandWords c ++ rest) faults) =
      operations level (!c && e.compared) e.reread (upTo rest faults) := by
  cases c with
  | false =>
    obtain ⟨hlevel, hle⟩ := henclosed rfl
    exact h.operation hlevel level rest faults hle hends hcall
  | true =>
    have hfactor : Parser.factor (upTo (e.operandWords true ++ rest) faults) = _ :=
      h.factor_operand nofun (endsFactor_of_endsOperation hends) hcall
    rw [operation_eq ends, operationRule, bind_of_run hfactor]
    rfl

end Operands

section Accesses

theorem accesses_index {object i : Expr} (hi : ReadsBack i) :
    accesses object (upTo (.sign .lbracket :: (i.words ++ .sign .rbracket :: rest)) faults) =
      accesses (.index object i.reread .start) (upTo rest faults) := by
  have hindex := hi.expression (.sign .rbracket :: rest) faults rfl
  rw [accesses_eq ends, accessesRule, current_cons_bind]
  simp only [Token.kind_sign]
  rw [advance_cons_bind, bind_of_run hindex, expect_sign_bind]
  rfl

theorem accesses_member {object : Expr} {name : Text} :
    accesses object (upTo (.sign .dot :: .word name :: rest) faults) =
      accesses (.member object name .start) (upTo rest faults) := by
  rw [accesses_eq ends, accessesRule, current_cons_bind]
  simp only [Token.kind_sign]
  rw [advance_cons_bind, expect_word_bind]
  rfl

/-- The tokens of expressions are read as the expressions. -/
theorem expressions {es : List Expr} (h : ∀ e ∈ es, ReadsBack e) (hne : es ≠ [])
    (hends : endsExpression (following rest) = true) (hcomma : following rest ≠ .comma) :
    Parser.expressions (upTo (Expr.listWords es ++ rest) faults) = (Expr.rereadAll es, upTo rest faults) := by
  induction es with
  | nil => exact absurd rfl hne
  | cons e es ih =>
    have he := h e (List.mem_cons_self ..)
    cases es with
    | nil =>
      have hfirst := he.expression rest faults hends
      rw [Expr.listWords_singleton, expressions_eq ends, separated, bind_of_run hfirst,
        accept_bind_of_ne hcomma]
      rfl
    | cons e' es =>
      have hfirst := he.expression (.sign .comma :: (Expr.listWords (e' :: es) ++ rest)) faults rfl
      have hmore := ih (fun x hx => h x (List.mem_cons_of_mem _ hx)) nofun
      rw [Expr.listWords_cons_cons, List.append_assoc, List.cons_append, expressions_eq ends, separated,
        bind_of_run hfirst, accept_sign_bind, if_pos rfl, bind_of_run hmore]
      rfl

theorem accesses_call {object : Expr} {args : List Expr} (hargs : ∀ e ∈ args, ReadsBack e) :
    accesses object (upTo (.sign .lparen :: (Expr.listWords args ++ .sign .rparen :: rest)) faults) =
      accesses (.call object (Expr.rereadAll args) .start) (upTo rest faults) := by
  rw [accesses_eq ends, accessesRule, current_cons_bind]
  simp only [Token.kind_sign]
  rw [advance_cons_bind, at?_bind]
  cases args with
  | nil => rfl
  | cons e es =>
    have hlist : Parser.expressions (upTo (Expr.listWords (e :: es) ++ .sign .rparen :: rest) faults) = _ :=
      expressions hargs nofun rfl nofun
    have hopen : (following (Expr.listWords (e :: es) ++ .sign .rparen :: rest) == .rparen) = false :=
      beq_eq_false_iff_ne.mpr
        (following_listWords (hargs e (List.mem_cons_self ..)).legible ▸ head_ne e rfl)
    rw [hopen, if_neg Bool.false_ne_true, bind_of_run hlist, expect_sign_bind]
    rfl

end Accesses

end ReadsBack

section Operands

theorem readsBack_of_primary {e : Expr} (hlegible : e.Legible) (hlevel : e.level = 7)
    (hprimary : ∀ rest faults, (e.isArrayType = true → NoCall rest) →
      primary (upTo (e.words ++ rest) faults) = (e.reread, upTo rest faults)) : ReadsBack e := by
  refine .of_access (fun rest faults hcall => ?_) hlegible hlevel
  rw [access_eq ends, accessRule, bind_of_run (hprimary rest faults hcall)]

variable {pos : Pos}

theorem readsBack_string {value : Text} (h : (Expr.string value pos).Legible) :
    ReadsBack (.string value pos) := by
  refine readsBack_of_primary h rfl fun rest faults _ => ?_
  change primary (upTo (⟨.stringLit, StringLiteral.encode value, .start⟩ :: rest) faults) = _
  rw [primary_eq ends, primaryRule, current_cons_bind]
  simp only
  rw [advance_cons_bind, StringLiteral.decode_encode]
  rfl

theorem isTypeLike_array {elements : List Expr} (h : (Expr.array elements pos).isTypeLike = true) :
    (Expr.array elements pos).isArrayType = true := by
  match elements with
  | [e] => exact h
  | [] | _ :: _ :: _ => exact nomatch h

theorem readsBack_array {elements : List Expr} (h : ∀ e ∈ elements, ReadsBack e)
    (hlegible : Expr.LegibleAll elements) : ReadsBack (.array elements pos) := by
  refine readsBack_of_primary hlegible rfl fun rest faults hcall => ?_
  have hnone : emptyArray? (upTo ((Expr.array elements pos).words ++ rest) faults) = _ :=
    emptyArray?_array hlegible fun hlike => hcall (isTypeLike_array hlike)
  rw [Expr.words_array] at hnone ⊢
  simp only [List.cons_append, List.append_assoc, List.nil_append] at hnone ⊢
  rw [primary_eq ends, primaryRule, current_cons_bind]
  simp only [Token.kind_sign]
  rw [bind_of_run hnone]
  simp only
  rw [advance_cons_bind, at?_bind]
  cases elements with
  | nil => rfl
  | cons e es =>
    have hcomma : TokenKind.rbracket ≠ .comma := by decide
    have hlist : expressions (upTo (Expr.listWords (e :: es) ++ .sign .rbracket :: rest) faults) = _ :=
      ReadsBack.expressions h (List.cons_ne_nil e es) rfl hcomma
    have hopen : (following (Expr.listWords (e :: es) ++ .sign .rbracket :: rest) == .rbracket) = false :=
      beq_eq_false_iff_ne.mpr (following_listWords hlegible.1 ▸ head_ne e rfl)
    rw [hopen, if_neg Bool.false_ne_true, bind_of_run hlist, expect_sign_bind]
    rfl

/-- An empty array, also one that was a call of an array literal. -/
theorem primary_emptyArray {t : TypeExpr} (h : t.Legible) (harray : t.isArrayLike = true) :
    primary (upTo (t.words ++ .sign .lparen :: .sign .rparen :: rest) faults) =
      (.emptyArray t.unplaced .start, upTo rest faults) := by
  have hempty : emptyArray? (upTo (t.words ++ .sign .lparen :: .sign .rparen :: rest) faults) = _ :=
    emptyArray?_words h harray
  obtain ⟨ts, hts⟩ := TypeExpr.words_head_of_isArrayLike harray
  rw [hts, List.cons_append] at hempty ⊢
  rw [primary_eq ends, primaryRule, current_cons_bind]
  simp only [Token.kind_sign]
  rw [bind_of_run hempty]
  rfl

theorem readsBack_emptyArray {type : TypeExpr} (h : (Expr.emptyArray type pos).Legible) :
    ReadsBack (.emptyArray type pos) := by
  refine readsBack_of_primary h rfl fun rest faults _ => ?_
  rw [Expr.words_emptyArray, List.append_assoc]
  exact primary_emptyArray h.1 h.2

theorem readsBack_member {object : Expr} {name : Text} (h : ReadsBack object)
    (hname : Lexeme.IsName name) : ReadsBack (.member object name pos) := by
  refine .of_access (fun rest faults _ => ?_) ⟨h.legible, hname⟩ rfl
  have hobject : access (upTo (object.operandWords (object.level < 7) ++
      .sign .dot :: .word name :: rest) faults) = _ :=
    h.access_operand fun _ => noCall_sign nofun nofun
  rw [Expr.words_member, List.append_assoc]
  exact hobject.trans ReadsBack.accesses_member

theorem readsBack_index {object i : Expr} (h : ReadsBack object) (hi : ReadsBack i) :
    ReadsBack (.index object i pos) := by
  refine .of_access (fun rest faults _ => ?_) ⟨h.legible, hi.legible⟩ rfl
  have hobject : access (upTo (object.operandWords (object.level < 7) ++
      .sign .lbracket :: (i.words ++ .sign .rbracket :: rest)) faults) = _ :=
    h.access_operand fun _ => noCall_sign nofun nofun
  rw [Expr.words_index]
  simp only [List.append_assoc, List.cons_append, List.nil_append]
  exact hobject.trans hi.accesses_index

theorem isArrayLike_asType {e : Expr} (h : e.isArrayType = true) : e.asType.isArrayLike = true := by
  unfold Expr.isArrayType at h
  split at h
  · rfl
  · cases h

theorem readsBack_call {callee : Expr} {args : List Expr} (h : ReadsBack callee)
    (hargs : ∀ e ∈ args, ReadsBack e) (hlegible : Expr.LegibleAll args) :
    ReadsBack (.call callee args pos) := by
  refine .of_access (fun rest faults _ => ?_) ⟨h.legible, hlegible⟩ rfl
  rw [Expr.words_call, Expr.reread]
  simp only [List.append_assoc, List.cons_append, List.nil_append]
  split
  case isTrue hcalls =>
    obtain ⟨harray, hempty⟩ := Bool.and_eq_true_iff.mp hcalls
    have hlike := Expr.isTypeLike_of_isArrayType harray
    have hlevel : ¬callee.level < 7 := by
      cases callee with
      | array => exact Nat.lt_irrefl 7
      | _ => cases harray
    have hwords : callee.words = callee.asType.words := by
      rw [Expr.words, TypeExpr.words, Expr.pieces_asType hlike]
    obtain rfl := List.isEmpty_iff.mp hempty
    have hread : primary (upTo (callee.asType.words ++ .sign .lparen :: .sign .rparen :: rest) faults) = _ :=
      primary_emptyArray (legible_asType h.legible hlike) (isArrayLike_asType harray)
    rw [unplaced_asType] at hread
    rw [decide_eq_false hlevel, Expr.operandWords_false, hwords, access_eq ends, accessRule]
    exact bind_of_run hread
  case isFalse hcalls =>
    have hcall : callee.isArrayType = true →
        NoCall (.sign .lparen :: (Expr.listWords args ++ .sign .rparen :: rest)) := by
      intro harray
      cases args with
      | nil => exact absurd (Bool.and_eq_true_iff.mpr ⟨harray, rfl⟩) hcalls
      | cons e es => exact noCall_args hlegible.1
    exact (h.access_operand hcall).trans (ReadsBack.accesses_call hargs)

end Operands

section Operations

theorem readsBack_unary {op : UnaryOp} {operand : Expr} {pos : Pos} (h : ReadsBack operand) :
    ReadsBack (.unary op operand pos) := by
  refine .of_factor (fun rest faults hends hcall => ?_) h.legible rfl
  have hoperand : factor (upTo (operand.operandWords
      (operand.level < 6 || (op == .neg && operand.isNegation)) ++ rest) faults) = _ :=
    h.factor_operand (fun hc => by
      rw [Bool.or_eq_false_iff, decide_eq_false_iff_not] at hc
      omega) hends hcall
  have hop : UnaryOp.ofToken? op.token = some op := by cases op <;> rfl
  rw [Expr.words_unary, List.cons_append, factor_eq ends, factorRule, current_cons_bind]
  simp only [Token.kind_sign, hop]
  rw [advance_cons_bind, bind_of_run hoperand]
  rfl

theorem unary_following_operand {e : Expr} (h : e.Legible) :
    UnaryOp.ofToken? (following (e.operandWords (e.level < 7) ++ rest)) = none := by
  by_cases hlevel : e.level < 7
  · rw [decide_eq_true hlevel, Expr.operandWords_true]
    rfl
  · have hle := e.level_le
    rw [decide_eq_false hlevel, Expr.operandWords_false, following_words h]
    exact Expr.unary_ofToken?_head (by omega)

theorem readsBack_power {left right : Expr} {pos : Pos} (hleft : ReadsBack left)
    (hright : ReadsBack right) : ReadsBack (.binary .pow left right pos) := by
  refine .of_factor (fun rest faults hends hcall => ?_) ⟨hleft.legible, hright.legible⟩ rfl
  have haccess : access (upTo (left.operandWords (left.level < 7) ++
      .sign .power :: (right.operandWords (right.level < 6) ++ rest)) faults) = _ :=
    hleft.access_operand fun _ => noCall_sign nofun nofun
  rw [accesses_stop rfl] at haccess
  have hfactor : factor (upTo (right.operandWords (right.level < 6) ++ rest) faults) = _ :=
    hright.factor_operand (fun hc => by
      rw [decide_eq_false_iff_not] at hc
      omega) hends hcall
  have hnone : UnaryOp.ofToken? (upTo (left.operandWords (left.level < 7) ++ .sign .power ::
      (right.operandWords (right.level < 6) ++ rest)) faults).current.kind = none :=
    unary_following_operand hleft.legible
  rw [Expr.words_binary, List.append_assoc, List.cons_append]
  change factor (upTo (left.operandWords (left.level < 7) ++ .sign .power ::
    (right.operandWords (right.level < 6) ++ rest)) faults) = _
  rw [factor_eq ends, factorRule, bind_of_run (current_run _)]
  simp only [hnone]
  rw [bind_of_run haccess, current_cons_bind, Token.kind_sign, beq_self_eq_true, if_pos rfl,
    advance_cons_bind, bind_of_run hfactor]
  rfl

theorem ofToken?_token (op : BinaryOp) : BinaryOp.ofToken? op.token = some op := by
  cases op <;> rfl

variable {op : BinaryOp}

theorem operatorFrom?_token {level : Nat} (hop : op ≠ .pow) (hle : level ≤ op.level) :
    operatorFrom? level op.token = some op := by
  rw [operatorFrom?, ofToken?_token]
  cases op with
  | pow => exact absurd rfl hop
  | _ => exact if_pos hle

theorem endsOperation_token {level : Nat} (hop : op ≠ .pow) (hlt : op.level < level) :
    endsOperation level op.token = true := by
  have hfactor : endsFactor op.token = true := by
    cases op with
    | pow => exact absurd rfl hop
    | _ => rfl
  simp [endsOperation, hfactor, ofToken?_token, hlt]

theorem rightLevel_eq (hop : op ≠ .pow) : Expr.rightLevel op = op.level + 1 := by
  cases op with
  | pow => exact absurd rfl hop
  | _ => rfl

/-- The left operand of a comparison is no comparison. -/
theorem not_chained (op : BinaryOp) (left : Expr) :
    (op.isComparison && (!decide (left.level < Expr.leftLevel op) && left.compared)) = false := by
  rw [Bool.eq_false_iff, ne_eq, Bool.and_eq_true, Bool.and_eq_true]
  rintro ⟨hop, hleft, hcompared⟩
  have hlevel := Expr.level_of_compared hcompared
  have hge : Expr.leftLevel op ≤ left.level := by simpa using hleft
  have hfour : Expr.leftLevel op = 4 := by
    cases op with
    | lt | gt | leq | geq | eq | neq => rfl
    | _ => exact nomatch hop
  omega

/-- One operator and its right operand are added to what was read. -/
theorem operations_binary {left right : Expr} {level : Nat} {compared : Bool} (hop : op ≠ .pow)
    (hle : level ≤ op.level) (hright : ReadsBack right)
    (hchained : (op.isComparison && compared) = false)
    (hends : endsOperation (op.level + 1) (following rest) = true) (hcall : NoCall rest) :
    operations level compared left (upTo (.sign op.token ::
        (right.operandWords (right.level < Expr.rightLevel op) ++ rest)) faults) =
      operations level (compared || op.isComparison) (.binary op left right.reread .start)
        (upTo rest faults) := by
  have hlevels := Expr.level_binaryOp_le op
  have hrightLevel := rightLevel_eq hop
  have hoperand : operation (op.level + 1)
      (upTo (right.operandWords (right.level < Expr.rightLevel op) ++ rest) faults) = _ :=
    hright.operation_operand (op.level + 1) (fun hc => by
      rw [decide_eq_false_iff_not] at hc
      omega) (endsOperation_mono (by
        by_cases hc : right.level < Expr.rightLevel op
        · simp [hc]; omega
        · simp [hc]; omega) hends) hcall
  rw [operations_stop hends] at hoperand
  rw [operations_eq ends, operationsRule, current_cons_bind]
  simp only [Token.kind_sign, operatorFrom?_token hop hle]
  rw [advance_cons_bind, hchained, if_neg Bool.false_ne_true, bind_of_run hoperand]
  rfl

theorem readsBack_binary {left right : Expr} {pos : Pos} (hop : op ≠ .pow) (hleft : ReadsBack left)
    (hright : ReadsBack right) : ReadsBack (.binary op left right pos) := by
  have hlevels := Expr.level_binaryOp_le op
  have hleftLevel := Expr.level_le_leftLevel op
  refine .of_operation (fun level rest faults hle hends hcall => ?_)
    ⟨hleft.legible, hright.legible⟩ hlevels.1 (Expr.level_binaryOp_le_five hop)
  have hle' : level ≤ op.level := hle
  have hoperand : operation level (upTo (left.operandWords (left.level < Expr.leftLevel op) ++
      .sign op.token :: (right.operandWords (right.level < Expr.rightLevel op) ++ rest)) faults) = _ :=
    hleft.operation_operand level (fun hc => by
      rw [decide_eq_false_iff_not] at hc
      omega) (endsOperation_token hop (by
        by_cases hc : left.level < Expr.leftLevel op
        · simp [hc]; omega
        · simp [hc]; omega))
      (noCall_sign (by cases op <;> nofun) (by cases op <;> nofun))
  rw [Expr.words_binary, List.append_assoc, List.cons_append]
  exact hoperand.trans (operations_binary hop hle' hright (not_chained op left) hends hcall)

theorem readsBack_conditional {test consequent alternate : Expr} {pos : Pos} (htest : ReadsBack test)
    (hconsequent : ReadsBack consequent) (halternate : ReadsBack alternate) :
    ReadsBack (.conditional test consequent alternate pos) := by
  refine .of_expression (fun rest faults hends => ?_)
    ⟨htest.legible, hconsequent.legible, halternate.legible⟩ rfl
  have hoperand : operation 1 (upTo (test.operandWords (test.level < 1) ++ .sign .question ::
      (consequent.words ++ .sign .colon :: (alternate.words ++ rest))) faults) = _ :=
    htest.operation_operand 1 (fun hc => by
      rw [decide_eq_false_iff_not] at hc
      omega) rfl (noCall_question hconsequent.legible)
  rw [operations_stop rfl] at hoperand
  have hthen := hconsequent.expression (.sign .colon :: (alternate.words ++ rest)) faults rfl
  have helse := halternate.expression rest faults hends
  rw [Expr.words_conditional]
  simp only [List.append_assoc, List.cons_append]
  rw [expression_eq ends, expressionRule, bind_of_run hoperand, accept_sign_bind, if_pos rfl,
    bind_of_run hthen, expect_sign_bind, bind_of_run helse]
  rfl

end Operations

mutual

/-- The tokens of a legible expression are read as the expression. -/
theorem readsBack (e : Expr) (h : e.Legible) : ReadsBack e := by
  cases e with
  | name | shot | int | float =>
    exact readsBack_of_primary h rfl fun _ _ _ => primary_eq ends
  | string => exact readsBack_string h
  | bool value => cases value <;> exact readsBack_of_primary h rfl fun _ _ _ => primary_eq ends
  | array elements => exact readsBack_array (readsBackAll elements h) h
  | emptyArray type => exact readsBack_emptyArray h
  | member object n => exact readsBack_member (readsBack object h.1) h.2
  | index object i => exact readsBack_index (readsBack object h.1) (readsBack i h.2)
  | call callee args => exact readsBack_call (readsBack callee h.1) (readsBackAll args h.2) h.2
  | unary op operand => exact readsBack_unary (readsBack operand h)
  | binary op left right =>
    by_cases hop : op = .pow
    · exact hop ▸ readsBack_power (readsBack left h.1) (readsBack right h.2)
    · exact readsBack_binary hop (readsBack left h.1) (readsBack right h.2)
  | conditional test consequent alternate =>
    exact readsBack_conditional (readsBack test h.1) (readsBack consequent h.2.1)
      (readsBack alternate h.2.2)

theorem readsBackAll (es : List Expr) (h : Expr.LegibleAll es) : ∀ e ∈ es, ReadsBack e := by
  cases es with
  | nil => nofun
  | cons e rest => exact List.forall_mem_cons.mpr ⟨readsBack e h.1, readsBackAll rest h.2⟩

end

theorem expression_words {e : Expr} (h : e.Legible) (hends : endsExpression (following rest) = true) :
    expression (upTo (e.words ++ rest) faults) = (e.reread, upTo rest faults) :=
  (readsBack e h).expression rest faults hends

theorem access_words {e : Expr} (h : e.Legible) (hlevel : e.level = 7)
    (hcall : e.isArrayType = true → NoCall rest) (hends : endsAccess (following rest) = true) :
    access (upTo (e.words ++ rest) faults) = (e.reread, upTo rest faults) :=
  ((readsBack e h).access hlevel rest faults hcall).trans (accesses_stop hends)

end Parser

end PeakLang.Tree
