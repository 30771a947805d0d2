import PeakLang.Proofs.Tree.Parser.Complete.Expr

namespace PeakLang.Tree.Parser

variable {s s' : State} {rest : List Token} {faults : List (Fault × Pos)}

section Parts

theorem typedName_words {name : Text} {t : TypeExpr} (h : t.Legible)
    (hrest : following rest ≠ .question) :
    typedName (upTo (typedWords name t ++ rest) faults) =
      ((name, t.unplaced, .start), upTo rest faults) := by
  have htype : type (upTo (t.words ++ rest) faults) = _ := type_words t h rest hrest
  rw [typedName, typedWords, List.cons_append, List.cons_append, expect_word_bind, expect_sign_bind,
    bind_of_run htype]
  rfl

theorem param_words {p : Param} (h : p.Legible) (hrest : following rest ≠ .question) :
    param (upTo (typedWords p.name p.type ++ rest) faults) =
      (p.unplaced, upTo rest faults) := by
  rw [param, bind_of_run (typedName_words h.2 hrest)]
  rfl

theorem field_words {f : Field} (h : f.Legible) (hrest : following rest ≠ .question) :
    field (upTo (typedWords f.name f.type ++ rest) faults) =
      (f.unplaced, upTo rest faults) := by
  rw [field, bind_of_run (typedName_words h.2 hrest)]
  rfl

theorem someParams_words {ps : List Param} (h : ∀ p ∈ ps, p.Legible) (hne : ps ≠ []) :
    someParams (upTo (paramWords ps ++ .sign .rparen :: rest) faults) =
      (ps.map Param.unplaced, upTo (.sign .rparen :: rest) faults) := by
  induction ps with
  | nil => exact absurd rfl hne
  | cons p ps ih =>
    have hp := h p (List.mem_cons_self ..)
    cases ps with
    | nil =>
      have hfirst : param (upTo (typedWords p.name p.type ++ .sign .rparen :: rest) faults) = _ :=
        param_words hp nofun
      rw [paramWords_singleton, someParams_eq ends, separated, bind_of_run hfirst,
        accept_sign_bind_of_ne (by decide)]
      rfl
    | cons p' ps =>
      have hfirst : param (upTo (typedWords p.name p.type ++
          .sign .comma :: (paramWords (p' :: ps) ++ .sign .rparen :: rest)) faults) = _ :=
        param_words hp nofun
      have hmore := ih (fun q hq => h q (List.mem_cons_of_mem _ hq)) nofun
      rw [paramWords_cons_cons, List.append_assoc, List.cons_append, someParams_eq ends, separated,
        bind_of_run hfirst, accept_sign_bind, if_pos rfl, bind_of_run hmore]
      rfl

theorem params_words {ps : List Param} (h : ∀ p ∈ ps, p.Legible) :
    params (upTo (paramWords ps ++ .sign .rparen :: rest) faults) =
      (ps.map Param.unplaced, upTo (.sign .rparen :: rest) faults) := by
  rw [params, at?_bind]
  cases ps with
  | nil => rfl
  | cons p ps =>
    have hopen : (following (paramWords (p :: ps) ++ .sign .rparen :: rest) == .rparen) =
        false := by
      cases ps with
      | nil => rw [paramWords_singleton]; rfl
      | cons p' ps => rw [paramWords_cons_cons]; rfl
    rw [hopen, if_neg Bool.false_ne_true]
    exact someParams_words h nofun

theorem declaration_words {k : TokenKind} {name : Text} {readOnly : Bool} {value : Expr}
    (h : value.Legible) (hends : endsExpression (following rest) = true) :
    declaration readOnly
        (upTo (.sign k :: .word name :: .sign .assign :: (value.words ++ rest)) faults) =
      (.declare name readOnly value.reread .start, upTo rest faults) := by
  rw [declaration, advance_cons_bind, expect_word_bind, expect_sign_bind,
    bind_of_run (expression_words h hends)]
  rfl

theorem pos_following {e : Expr} (h : e.Legible) :
    (upTo (e.words ++ rest) faults).current.pos = .start := by
  obtain ⟨t, ts, hwords, -⟩ := e.opens_words h
  have hmem : t ∈ e.words := hwords ▸ List.mem_cons_self ..
  obtain ⟨_, -, rfl⟩ := List.mem_map.mp hmem
  rw [hwords]
  rfl

theorem statement_target {e : Expr} (h : e.Legible) :
    statement (upTo (e.words ++ rest) faults) = simpleStmt (upTo (e.words ++ rest) faults) := by
  have hstarts : startsExpression (upTo (e.words ++ rest) faults).current.kind = true :=
    (congrArg startsExpression (following_words h)).trans e.startsExpression_head
  rw [statement_eq ends, statementRule, bind_of_run (current_run _)]
  refine congrFun (?_ : _ = simpleStmt) _
  split
  case h_11 => rfl
  all_goals
    rename_i hkind
    rw [hkind] at hstarts
    exact absurd hstarts (by decide)

theorem kind_func {f : Func} {depth : Nat} : following (f.words depth ++ rest) = .kwItem := by
  obtain ⟨name, params, result, body, bodyPos, pos⟩ := f
  rw [Func.words_mk]
  rfl

theorem kind_branch {b : Branch} {depth : Nat} : following (b.words depth ++ rest) = .kwBrew := by
  obtain ⟨test, body, bodyPos, otherwise, pos⟩ := b
  rw [Branch.words_mk]
  rfl

/-- A statement that starts with an operand reads the operand first. -/
theorem simpleStmt_words {e : Expr} (h : e.Legible) {x : Expr} {s' : State}
    (haccess : access (upTo (e.words ++ rest) faults) = (x, s')) :
    simpleStmt (upTo (e.words ++ rest) faults) = simpleStmtFrom .start faults.length x s' := by
  rw [simpleStmt, bind_of_run (current_run _)]
  simp only [pos_following h]
  rw [bind_of_run (faultCount_run _), bind_of_run haccess]

theorem assign_words {target value : Expr} (htarget : target.Legible) (hlevel : target.level = 7)
    (hvalue : value.Legible) (hends : endsExpression (following rest) = true) :
    simpleStmt (upTo (target.words ++ .sign .assign :: (value.words ++ rest)) faults) =
      (some (.assign target.reread value.reread .start), upTo rest faults) := by
  have haccess : access (upTo (target.words ++ .sign .assign :: (value.words ++ rest)) faults) = _ :=
    access_words htarget hlevel (fun _ => noCall_sign nofun nofun) rfl
  rw [simpleStmt_words htarget haccess, simpleStmtFrom, current_cons_bind]
  simp only [Token.kind_sign, BumpOp.ofToken?, beq_self_eq_true, if_true]
  rw [advance_cons_bind, bind_of_run (expression_words hvalue hends)]
  rfl

theorem bump_words {op : BumpOp} {target : Expr} (htarget : target.Legible)
    (hlevel : target.level = 7) :
    simpleStmt (upTo (target.words ++ .sign op.token :: rest) faults) =
      (some (.bump op target.reread .start), upTo rest faults) := by
  have haccess : access (upTo (target.words ++ .sign op.token :: rest) faults) = _ :=
    access_words htarget hlevel (fun _ => noCall_sign (by cases op <;> nofun) (by cases op <;> nofun))
      (by cases op <;> rfl)
  rw [simpleStmt_words htarget haccess, simpleStmtFrom, current_cons_bind]
  cases op <;> rfl

theorem call_words {callee : Expr} {args : List Expr} {callPos pos : Pos}
    (h : (Expr.call callee args callPos).Legible) (hback : Expr.callsArrayType callee args = false)
    (hends : (Stmt.call callee args callPos pos).endsBefore (following rest) = true) :
    simpleStmt (upTo ((Expr.call callee args callPos).words ++ rest) faults) =
      (some (.call callee.reread (Expr.rereadAll args) .start .start), upTo rest faults) := by
  rw [Stmt.endsBefore, Bool.and_eq_true, Bool.and_eq_true] at hends
  obtain ⟨⟨haccess, hassign⟩, hbump⟩ := hends
  have hread : access (upTo ((Expr.call callee args callPos).words ++ rest) faults) = _ :=
    access_words h rfl nofun haccess
  rw [Expr.reread, hback, if_neg Bool.false_ne_true] at hread
  have hnone : BumpOp.ofToken? (upTo rest faults).current.kind = none :=
    Option.isNone_iff_eq_none.mp hbump
  have hne : ((upTo rest faults).current.kind == .assign) = false := by
    change (following rest == .assign) = false
    simpa using hassign
  rw [simpleStmt_words h hread, simpleStmtFrom, bind_of_run (current_run _)]
  simp only [hnone, hne, Bool.false_eq_true, if_false]
  rfl

end Parts

section Heads

/-- A statement starts with its head. -/
theorem following_stmt {s : Stmt} (h : s.Legible) (depth : Nat) :
    following (s.words depth ++ rest) = s.head := by
  cases s with
  | declare => rw [Stmt.words_declare]; rfl
  | function f =>
    obtain ⟨name, params, result, body, bodyPos, pos⟩ := f
    rw [Stmt.words_function, Func.words_mk]
    rfl
  | cls => rw [Stmt.words_cls]; rfl
  | assign target value => rw [Stmt.words_assign, List.append_assoc, following_words h.1]; rfl
  | bump op target => rw [Stmt.words_bump, List.append_assoc, following_words h]; rfl
  | branch b =>
    obtain ⟨test, body, bodyPos, otherwise, pos⟩ := b
    rw [Stmt.words_branch, Branch.words_mk]
    rfl
  | loop => rw [Stmt.words_loop]; rfl
  | forEach => rw [Stmt.words_forEach]; rfl
  | leave => rfl
  | ret => rw [Stmt.words_ret]; rfl
  | print => rw [Stmt.words_print]; rfl
  | call callee args callPos =>
    have hcall : (Expr.call callee args callPos).Legible := h
    rw [Stmt.words_call, following_words hcall]
    rfl

/-- No statement starts with a token that closes a block or goes on with one. -/
theorem stmt_head_ne (s : Stmt) {k : TokenKind}
    (h : k = .rbrace ∨ k = .eof ∨ k = .kwPull ∨ k = .question) : s.head ≠ k := by
  have hexpr (e : Expr) : e.head ≠ k := by
    obtain rfl | rfl | rfl | rfl := h <;> exact head_ne e rfl
  cases s with
  | assign target | bump _ target => exact hexpr target
  | call callee args callPos => exact hexpr (.call callee args callPos)
  | declare _ readOnly => cases readOnly <;> obtain rfl | rfl | rfl | rfl := h <;> nofun
  | _ => obtain rfl | rfl | rfl | rfl := h <;> nofun

theorem closesBlock_head (s : Stmt) : closesBlock s.head = false := by
  rw [closesBlock, beq_eq_false_iff_ne.mpr (stmt_head_ne s (.inl rfl)),
    beq_eq_false_iff_ne.mpr (stmt_head_ne s (.inr (.inl rfl))), Bool.or_false]

/-- Every statement may end where a block ends. -/
theorem endsBefore_close (s : Stmt) {k : TokenKind} (hclose : closesBlock k = true) :
    s.endsBefore k = true := by
  have h : k = .rbrace ∨ k = .eof := by simpa [closesBlock] using hclose
  cases s with
  | ret value => obtain rfl | rfl := h <;> cases value <;> rfl
  | _ => obtain rfl | rfl := h <;> rfl

theorem length_stmt_words {s : Stmt} (h : s.Legible) (depth : Nat) :
    0 < (s.words depth).length := by
  refine List.length_pos_iff.mpr fun hnil => ?_
  have hhead : following (s.words depth ++ []) = s.head := following_stmt h depth
  rw [hnil] at hhead
  exact stmt_head_ne s (.inr (.inl rfl)) hhead.symm

end Heads

section Operators

/-- The tokens with which no operand starts and that go on with none: operators. -/
def isOperator (k : TokenKind) : Bool :=
  (BinaryOp.ofToken? k).isSome || k == .question || k == .kwNot

theorem isOperator_token (op : BinaryOp) : isOperator op.token = true := by
  cases op <;> rfl

theorem isOperator_unary (op : UnaryOp) : isOperator op.token = true := by
  cases op <;> rfl

theorem endsAccess_of_isOperator {k : TokenKind} (h : isOperator k = true) : endsAccess k = true := by
  cases k <;> first | rfl | exact nomatch h

/-- No operand starts with an operator. -/
theorem not_reads_access {e : Expr} (h : isOperator s.current.kind = true) : ¬ Reads access s e s' := by
  intro hread
  rw [access, reads_get_bind, expressionFuel, accessWith, accessRule, reads_bind] at hread
  obtain ⟨_, _, hread, -⟩ := hread
  rw [primaryWith, primaryRule, reads_current_bind] at hread
  split at hread
  case h_10 =>
    rw [reads_bind] at hread
    obtain ⟨_, _, hfault, -⟩ := hread
    exact not_reads_unexpected hfault
  all_goals
    rename_i hkind
    rw [hkind] at h
    cases h

/-- No statement starts with an operator. -/
theorem not_reads_statementWith {fuel : Nat} {r : Option Stmt} (h : isOperator s.current.kind = true) :
    ¬ Reads (statementWith (fuel + 1)) s r s' := by
  intro hread
  rw [statementWith, statementRule, reads_current_bind] at hread
  split at hread
  case h_11 =>
    simp only [simpleStmt, reads_current_bind, reads_faultCount_bind, reads_bind (p := access)] at hread
    obtain ⟨_, _, haccess, -⟩ := hread
    exact not_reads_access h haccess
  all_goals
    rename_i hkind
    rw [hkind] at h
    cases h

theorem closesBlock_of_isOperator {k : TokenKind} (h : isOperator k = true) :
    closesBlock k = false := by
  cases k <;> first | rfl | exact nomatch h

theorem not_reads_statementsRule {closes : TokenKind → Bool} {statement : Parse (Option Stmt)}
    {recover : Parse Unit} {more : Parse (List Stmt)} {body : List Stmt} [Forward statement]
    [Forward recover] [Forward more] (hcloses : closes s.current.kind = false)
    (hfirst : ∀ r t, ¬ Reads statement s r t) :
    ¬ Reads (statementsRule more closes (attempt statement recover)) s body s' := by
  intro hread
  obtain ⟨hclosed, -⟩ | ⟨-, _, _, hattempt, -⟩ := reads_statementsRule.mp hread
  · cases hcloses.symm.trans hclosed
  · obtain ⟨r, t, hread, -⟩ := reads_attempt hattempt
    exact hfirst r t hread

theorem not_reads_statements {body : List Stmt} (h : isOperator s.current.kind = true) :
    ¬ Reads statements s body s' := by
  rw [statements, reads_get_bind, statementFuel, statementsWith]
  exact not_reads_statementsRule (closesBlock_of_isOperator h) fun _ _ => not_reads_statementWith h

theorem not_reads_program {p : Program} (h : isOperator s.current.kind = true) :
    ¬ Reads program s p s' := by
  rw [program, reads_get_bind, programWith]
  refine not_reads_statementsRule (Bool.or_eq_false_iff.mp (closesBlock_of_isOperator h)).2 ?_
  intro r t
  rw [statement, reads_get_bind, statementFuel]
  exact not_reads_statementWith h

end Operators

section Targets

/-- A run that stops at an operator, later than it started. -/
def StopsAtOperator (s s' : State) : Prop :=
  isOperator s'.current.kind = true ∧ s'.ahead.length < s.ahead.length

theorem Expr.length_words_pos {e : Expr} (h : e.Legible) : 0 < e.words.length := by
  obtain ⟨t, ts, hwords, -⟩ := e.opens_words h
  rw [hwords]
  exact Nat.succ_pos _

/-- The left operand of an operator is read up to the operator, or to one within it. -/
theorem stops_operand {e : Expr} (h : e.Legible) {c : Bool} {k : TokenKind} {x : Expr}
    (hk : isOperator k = true)
    (hcall : e.isArrayType = true → NoCall (.sign k :: rest))
    (hinner : e.level < 7 → ∀ rest, Reads access (upTo (e.words ++ rest) faults) x s' →
      StopsAtOperator (upTo (e.words ++ rest) faults) s')
    (hread : Reads access (upTo (e.operandWords c ++ .sign k :: rest) faults) x s') :
    StopsAtOperator (upTo (e.operandWords c ++ .sign k :: rest) faults) s' := by
  have hends : endsAccess (following (.sign k :: rest)) = true := endsAccess_of_isOperator hk
  have hlength := Expr.length_words_pos h
  cases c with
  | true =>
    have hoperand : access (upTo (e.operandWords true ++ .sign k :: rest) faults) = _ :=
      (readsBack e h).access_enclosed
    rw [accesses_stop hends] at hoperand
    obtain ⟨rfl, rfl⟩ := Prod.mk.inj (hoperand.symm.trans hread.1)
    exact ⟨hk, by simp [Expr.operandWords_true]; omega⟩
  | false =>
    rw [Expr.operandWords_false] at hread ⊢
    by_cases hlevel : e.level < 7
    · exact hinner hlevel _ hread
    · have hle := e.level_le
      have hoperand : access (upTo (e.words ++ .sign k :: rest) faults) = _ :=
        access_words h (by omega) hcall hends
      obtain ⟨rfl, rfl⟩ := Prod.mk.inj (hoperand.symm.trans hread.1)
      exact ⟨hk, by simp; omega⟩

/-- An operation that stands where an operand should is read up to an operator. -/
theorem stops_access (e : Expr) (h : e.Legible) (hlevel : e.level < 7) {x : Expr}
    (rest : List Token) (hread : Reads access (upTo (e.words ++ rest) faults) x s') :
    StopsAtOperator (upTo (e.words ++ rest) faults) s' := by
  cases e with
  | unary op operand =>
    rw [Expr.words_unary, List.cons_append] at hread
    exact absurd hread (not_reads_access (isOperator_unary op))
  | binary op left right =>
    rw [Expr.words_binary, List.append_assoc] at hread ⊢
    exact stops_operand h.1 (isOperator_token op)
      (fun _ => noCall_sign (by cases op <;> nofun) (by cases op <;> nofun))
      (fun hlevel rest => stops_access left h.1 hlevel rest) hread
  | conditional test consequent alternate =>
    rw [Expr.words_conditional] at hread ⊢
    simp only [List.append_assoc, List.cons_append] at hread ⊢
    exact stops_operand h.1 rfl (fun _ => noCall_question h.2.1)
      (fun hlevel rest => stops_access test h.1 hlevel rest) hread
  | _ => exact absurd hlevel (Nat.lt_irrefl 7)

/-- What starts with an operand and goes on with neither a step nor an assignment is a call. -/
theorem reads_simpleStmtFrom_call {target : Expr} {pos : Pos} {r : Option Stmt}
    (hbump : BumpOp.ofToken? s.current.kind = none) (hassign : s.current.kind ≠ .assign)
    (h : Reads (simpleStmtFrom pos s.faults.length target) s r s') :
    (∃ callee args callPos, target = .call callee args callPos) ∧ s' = s := by
  rw [simpleStmtFrom, reads_current_bind, hbump] at h
  simp only [reads_ite, beq_iff_eq, hassign, false_and, not_false_eq_true, true_and, false_or] at h
  split at h
  case h_1 callee args callPos =>
    obtain ⟨-, rfl⟩ := reads_pure.mp h
    exact ⟨⟨callee, args, callPos, rfl⟩, rfl⟩
  case h_2 =>
    rw [reads_faultCount_bind, if_pos (Nat.le_refl _), reads_bind] at h
    obtain ⟨_, _, hfault, -⟩ := h
    exact absurd hfault not_reads_unexpected

theorem stops_simpleStmt {e : Expr} (h : e.Legible) (hlevel : e.level < 7) {r : Option Stmt}
    (hread : Reads simpleStmt (upTo (e.words ++ rest) faults) r s') :
    StopsAtOperator (upTo (e.words ++ rest) faults) s' := by
  simp only [simpleStmt, reads_current_bind, reads_faultCount_bind, reads_bind (p := access)] at hread
  obtain ⟨x, t, haccess, hread⟩ := hread
  have hstops := stops_access e h hlevel rest haccess
  have hbump : BumpOp.ofToken? t.current.kind = none := by
    have hkind := hstops.1
    cases hk : t.current.kind with
    | increment | decrement =>
      rw [hk] at hkind
      cases hkind
    | _ => rfl
  have hassign : t.current.kind ≠ .assign := by
    intro hk
    have hkind := hstops.1
    rw [hk] at hkind
    cases hkind
  have hfaults : faults.length = t.faults.length := congrArg List.length haccess.2.symm
  rw [hfaults] at hread
  obtain ⟨-, rfl⟩ := reads_simpleStmtFrom_call hbump hassign hread
  exact hstops

/-- A call that is written as an empty array is no statement. -/
theorem not_reads_call {callee : Expr} {args : List Expr} {callPos pos : Pos} {r : Option Stmt}
    (h : (Expr.call callee args callPos).Legible) (hback : Expr.callsArrayType callee args = true)
    (hends : (Stmt.call callee args callPos pos).endsBefore (following rest) = true) :
    ¬ Reads simpleStmt (upTo ((Expr.call callee args callPos).words ++ rest) faults) r s' := by
  intro hread
  rw [Stmt.endsBefore, Bool.and_eq_true, Bool.and_eq_true] at hends
  obtain ⟨⟨haccess, hassign⟩, hbump⟩ := hends
  have harray : access (upTo ((Expr.call callee args callPos).words ++ rest) faults) = _ :=
    access_words h rfl (fun harray => Bool.noConfusion harray) haccess
  rw [Expr.reread, hback, if_pos rfl] at harray
  rw [Reads, simpleStmt_words h harray] at hread
  obtain ⟨⟨_, _, _, hcall⟩, -⟩ := reads_simpleStmtFrom_call
    (s := upTo rest faults) (Option.isNone_iff_eq_none.mp hbump) (bne_iff_ne.mp hassign) hread
  cases hcall

/-- A statement whose target lacks its parentheses is read up to an operator. -/
theorem stops_target {target : Expr} (h : target.Legible) (hlevel : target.level ≠ 7)
    (hfaults : (simpleStmt (upTo (target.words ++ rest) faults)).2.faults = faults) :
    StopsAtOperator (upTo (target.words ++ rest) faults)
      (simpleStmt (upTo (target.words ++ rest) faults)).2 := by
  have hle := target.level_le
  exact stops_simpleStmt h (by omega) (reads_of_faults hfaults)

end Targets

end PeakLang.Tree.Parser
