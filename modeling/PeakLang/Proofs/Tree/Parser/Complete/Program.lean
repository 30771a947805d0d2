import PeakLang.Proofs.Tree.Parser.Complete.Stmt

namespace PeakLang.Tree.Parser

section Outcomes

/-- What comes of reading tokens: what they were made from is read back, up to a state. Where it should
not be, a run that records no fault stops early. -/
def Outcome {α : Type} (stops : State → Prop) : (back : Bool) → α × State → α → State → Prop
  | true, run, a, s => run = (a, s)
  | false, run, _, s => run.2.faults = s.faults → stops run.2

/-- What was not to be read back is a fault. -/
abbrev BackOrFault {α : Type} : (back : Bool) → α × State → α → State → Prop :=
  Outcome fun _ => False

variable {α β γ : Type} {stops : State → Prop} {back back' : Bool} {ahead ahead' rest : List Token}
  {faults : List (Fault × Pos)} {a : α} {b : β} {p : Parse α} {k : α → Parse β}

namespace Outcome

theorem map {run : α × State} {s : State} (f : α → β) (h : Outcome stops back run a s) :
    Outcome stops back (f run.1, run.2) (f a) s := by
  cases back with
  | true => exact congrArg (Prod.map f id) h
  | false => exact h

theorem andThen [hp : Forward p] [hk : ∀ a, Forward (k a)]
    (h : BackOrFault back (p (upTo ahead faults)) a (upTo ahead' faults))
    (h' : BackOrFault back' (k a (upTo ahead' faults)) b (upTo rest faults)) :
    Outcome stops (back && back') ((p >>= k) (upTo ahead faults)) b (upTo rest faults) := by
  cases back with
  | true =>
    rw [Bool.true_and, bind_of_run h]
    cases back' with
    | true => exact h'
    | false => exact fun hfaults => (h' hfaults).elim
  | false =>
    -- A fault of the first step is still there after the second.
    refine fun hfaults => (h ?_).elim
    have hfirst := (hp.advances (upTo ahead faults)).faults
    have hsecond := ((hk (p (upTo ahead faults)).1).advances (p (upTo ahead faults)).2).faults
    change (p (upTo ahead faults)).2.faults <+: ((p >>= k) (upTo ahead faults)).2.faults at hsecond
    rw [hfaults] at hsecond
    exact hsecond.eq_of_length_le hfirst.length_le

theorem bind [Forward p] [∀ a, Forward (k a)]
    (h : BackOrFault back (p (upTo ahead faults)) a (upTo ahead' faults))
    (hk : k a (upTo ahead' faults) = (b, upTo rest faults)) :
    Outcome stops back ((p >>= k) (upTo ahead faults)) b (upTo rest faults) := by
  have hrest : BackOrFault true (k a (upTo ahead' faults)) b (upTo rest faults) := hk
  rw [← Bool.and_true back]
  exact h.andThen hrest

section Pairs

variable {p : Parse (α × β)} {k : α × β → Parse γ} {x : α × β} {c : γ} [Forward p]
  [hk : ∀ a b, Forward (k (a, b))]

theorem andThen_pair (h : BackOrFault back (p (upTo ahead faults)) x (upTo ahead' faults))
    (h' : BackOrFault back' (k x (upTo ahead' faults)) c (upTo rest faults)) :
    Outcome stops (back && back') ((p >>= k) (upTo ahead faults)) c (upTo rest faults) :=
  have : ∀ x, Forward (k x) := fun x => hk x.1 x.2
  h.andThen h'

theorem bind_pair (h : BackOrFault back (p (upTo ahead faults)) x (upTo ahead' faults))
    (h' : k x (upTo ahead' faults) = (c, upTo rest faults)) :
    Outcome stops back ((p >>= k) (upTo ahead faults)) c (upTo rest faults) :=
  have : ∀ x, Forward (k x) := fun x => hk x.1 x.2
  h.bind h'

end Pairs

end Outcome

/-- A statement and those that follow it. -/
theorem outcome_cons {statement : Parse (Option Stmt)} {recover : Parse Unit}
    {more : Parse (List Stmt)} {closes : TokenKind → Bool} {x : Stmt} {xs : List Stmt}
    [Forward statement] [Forward recover] [Forward more]
    (hcloses : closes (following ahead) = false)
    (hfirst : Outcome (StopsAtOperator (upTo ahead faults)) back
      (statement (upTo ahead faults)) (some x) (upTo ahead' faults))
    (hshorter : ahead'.length < ahead.length)
    (hoperator : ∀ t, isOperator t.current.kind = true → ∀ ys s', ¬ Reads more t ys s')
    (hmore : BackOrFault back' (more (upTo ahead' faults)) xs (upTo rest faults)) :
    BackOrFault (back && back')
      (statementsRule more closes (attempt statement recover) (upTo ahead faults)) (x :: xs)
      (upTo rest faults) := by
  cases back with
  | true =>
    have hread : Reads (recovered statement recover) (upTo ahead faults) [x] (upTo ahead' faults) :=
      reads_recovered.mpr ⟨some x, ⟨hfirst, rfl⟩, rfl⟩
    have hattempt : Reads (attempt statement recover) (upTo ahead faults) [x] (upTo ahead' faults) :=
      (reads_attempt_of_shorter hread hshorter).mpr ⟨rfl, rfl⟩
    have hrun : statementsRule more closes (attempt statement recover) (upTo ahead faults) =
        ([x] ++ (more (upTo ahead' faults)).1, (more (upTo ahead' faults)).2) := by
      rw [statementsRule, bind_of_run (kind_run _)]
      change (if closes (following ahead) = true then _ else _ : Parse _) _ = _
      rw [hcloses, if_neg Bool.false_ne_true, bind_of_run hattempt.1]
      rfl
    rw [Bool.true_and, hrun]
    exact hmore.map ([x] ++ ·)
  | false =>
    intro hfaults
    obtain ⟨hclosed, -⟩ | ⟨-, ys, t, hys, zs, -, hzs⟩ :=
      reads_statementsRule.mp (reads_of_faults hfaults)
    · cases hcloses.symm.trans hclosed
    · obtain ⟨first, u, hread, hkept⟩ := reads_attempt hys
      obtain ⟨hkind, hlength⟩ : StopsAtOperator (upTo ahead faults) u := by
        have hstops := hfirst
        rw [hread.1] at hstops
        exact hstops hread.2
      obtain ⟨-, rfl⟩ := hkept hlength
      exact hoperator _ hkind _ _ hzs

end Outcomes

section Properties

/-- The tokens of a statement are read as the statement, or at best up to an operator. -/
def StmtBack (s : Stmt) : Prop :=
  ∀ depth rest faults, s.endsBefore (following rest) = true → following rest ≠ .kwPull →
    Outcome (StopsAtOperator (upTo (s.words depth ++ rest) faults)) s.readsBack
      (statement (upTo (s.words depth ++ rest) faults)) (some s.reread) (upTo rest faults)

/-- The tokens of a function are read as the function, or they are a fault. -/
def FuncBack (f : Func) : Prop :=
  ∀ depth rest faults, BackOrFault f.readsBack (function (upTo (f.words depth ++ rest) faults)) f.reread
      (upTo rest faults)

/-- The tokens of a branch are read as the branch, or they are a fault. -/
def BranchBack (b : Branch) : Prop :=
  ∀ depth rest faults, following rest ≠ .kwPull →
    BackOrFault b.readsBack (branch (upTo (b.words depth ++ rest) faults)) b.reread
      (upTo rest faults)

/-- The tokens of what follows a branch are read as such, or they are a fault. -/
def OtherwiseBack (o : Otherwise) : Prop :=
  ∀ depth rest faults, following rest ≠ .kwPull →
    BackOrFault o.readsBack (otherwise (upTo (o.words depth ++ rest) faults)) o.reread
      (upTo rest faults)

/-- The tokens of statements are read as the statements, up to the end of their block, or they are a
fault. -/
def BodyBack (body : List Stmt) : Prop :=
  ∀ depth rest faults, closesBlock (following rest) = true →
    BackOrFault (Stmt.allReadBack body)
      (statements (upTo (Stmt.listWords depth body ++ rest) faults)) (Stmt.rereadAll body)
      (upTo rest faults)

/-- The tokens of methods are read as the methods, up to the end of their class, or they are a
fault. -/
def MethodsBack (fs : List Func) : Prop :=
  ∀ depth apart cls fields methods rest faults,
    BackOrFault (Func.allReadBack fs) (members cls fields methods
        (upTo (Func.listWords depth apart fs ++ .sign .rbrace :: rest) faults))
      (fields, methods ++ Func.rereadAll fs) (upTo (.sign .rbrace :: rest) faults)

end Properties

section Blocks

variable (depth : Nat) (rest : List Token) (faults : List (Fault × Pos))

variable {body : List Stmt}

theorem block_words (h : BodyBack body) :
    BackOrFault (Stmt.allReadBack body) (block
        (upTo (.sign .lbrace :: (Stmt.listWords depth body ++ .sign .rbrace :: rest)) faults))
      (Stmt.rereadAll body, .start) (upTo rest faults) := by
  have hbody := h depth (.sign .rbrace :: rest) faults rfl
  rw [block_eq ends, blockRule, expect_sign_bind]
  exact hbody.bind expect_sign_bind

theorem funcBack_mk {name : Text} {params : List Param} {result : Option TypeExpr}
    {bodyPos pos : Pos} (hparams : ∀ p ∈ params, p.Legible) (hresult : ∀ t ∈ result, t.Legible)
    (hbody : BodyBack body) :
    FuncBack (.mk name params result body bodyPos pos) := by
  intro depth rest faults
  rw [Func.words_mk]
  simp only [List.cons_append, List.append_assoc, List.nil_append]
  have hblock := block_words (depth + 1) rest faults hbody
  rw [function_eq ends, functionRule, advance_cons_bind, expect_word_bind, expect_sign_bind,
    bind_of_run (params_words hparams), expect_sign_bind]
  cases result with
  | none =>
    rw [resultWords, List.nil_append, accept_sign_bind_of_ne (by decide)]
    simp only [Bool.false_eq_true, if_false]
    rw [bind_of_run (pure_run _ _)]
    exact hblock.bind_pair rfl
  | some t =>
    have htype : type (upTo (t.words ++ .sign .lbrace ::
        (Stmt.listWords (depth + 1) body ++ .sign .rbrace :: rest)) faults) = _ :=
      type_words t (hresult t rfl) _ (TokenKind.noConfusion ·)
    rw [resultWords, List.cons_append, accept_sign_bind]
    simp only [if_true]
    rw [bind_of_run (map_of_run htype)]
    exact hblock.bind_pair rfl

theorem branchBack_mk {test : Expr} {otherwise : Otherwise} {bodyPos pos : Pos}
    (htest : test.Legible) (hbody : BodyBack body) (hotherwise : OtherwiseBack otherwise) :
    BranchBack (.mk test body bodyPos otherwise pos) := by
  intro depth rest faults hpull
  rw [Branch.words_mk]
  simp only [List.cons_append, List.append_assoc]
  have hblock := block_words (depth + 1) (otherwise.words depth ++ rest) faults hbody
  have hmore := hotherwise depth rest faults hpull
  rw [branch_eq ends, branchRule, advance_cons_bind, bind_of_run (expression_words htest rfl)]
  exact hblock.andThen_pair (hmore.bind rfl)

theorem otherwiseBack_nothing : OtherwiseBack .nothing := by
  intro depth rest faults hpull
  rw [otherwise_eq ends, otherwiseRule, Otherwise.words, List.nil_append, accept_bind_of_ne hpull]
  rfl

theorem otherwiseBack_block {bodyPos : Pos} (hbody : BodyBack body) :
    OtherwiseBack (.block body bodyPos) := by
  intro depth rest faults hpull
  rw [Otherwise.words]
  simp only [List.cons_append, List.append_assoc, List.nil_append]
  have hblock := block_words (depth + 1) rest faults hbody
  have hbrew : (following (.sign .lbrace :: (Stmt.listWords (depth + 1) body ++
      .sign .rbrace :: rest)) == .kwBrew) = false := rfl
  rw [otherwise_eq ends, otherwiseRule, accept_sign_bind, if_pos rfl, at?_bind, hbrew,
    if_neg Bool.false_ne_true]
  exact hblock.bind_pair rfl

theorem otherwiseBack_chain {next : Branch} (h : BranchBack next) : OtherwiseBack (.chain next) := by
  intro depth rest faults hpull
  rw [Otherwise.words, List.cons_append]
  have hnext := h depth rest faults hpull
  have hbrew : (following (next.words depth ++ rest) == .kwBrew) = true :=
    beq_iff_eq.mpr kind_branch
  rw [otherwise_eq ends, otherwiseRule, accept_sign_bind, if_pos rfl, at?_bind, hbrew, if_pos rfl]
  exact hnext.bind rfl

section Members

theorem following_methods {fs : List Func} {apart : Bool} :
    following (Func.listWords depth apart fs ++ .sign .rbrace :: rest) ≠ .question := by
  cases fs with
  | nil => exact nofun
  | cons f fs =>
    rw [Func.listWords_cons, List.append_assoc, kind_func]
    exact nofun

theorem methodsBack_nil : MethodsBack [] := by
  intro depth apart cls fields methods rest faults
  rw [Func.rereadAll, List.append_nil, members_eq ends]
  rfl

theorem methodsBack_cons {f : Func} {fs : List Func} (hf : FuncBack f) (hfs : MethodsBack fs) :
    MethodsBack (f :: fs) := by
  intro depth apart cls fields methods rest faults
  rw [Func.listWords_cons, List.append_assoc]
  have hfirst := hf depth (Func.listWords depth true fs ++ .sign .rbrace :: rest) faults
  have hmore := hfs depth true cls fields (methods ++ [f.reread]) rest faults
  have hkind : (upTo (f.words depth ++ (Func.listWords depth true fs ++ .sign .rbrace :: rest))
      faults).current.kind = .kwItem := kind_func
  rw [members_eq ends, membersRule, bind_of_run (current_run _)]
  simp only [hkind]
  rw [List.append_assoc, List.singleton_append] at hmore
  exact hfirst.andThen hmore

/-- The fields of a class are read as they are, and its methods after them. -/
theorem members_fields (cls : Text) (apart : Bool) (ms : List Func) (fields : List Field)
    {fs : List Field} (hfs : ∀ f ∈ fs, f.Legible) :
    members cls fields []
        (upTo (fieldWords fs ++ (Func.listWords depth apart ms ++ .sign .rbrace :: rest)) faults) =
      members cls (fields ++ fs.map Field.unplaced) []
        (upTo (Func.listWords depth apart ms ++ .sign .rbrace :: rest) faults) := by
  induction fs generalizing fields with
  | nil => rw [List.map_nil, List.append_nil]; rfl
  | cons f fs ih =>
    have hwords : fieldWords (f :: fs) = typedWords f.name f.type ++ fieldWords fs :=
      List.flatMap_cons
    rw [hwords, List.append_assoc]
    have hnext : following (fieldWords fs ++
        (Func.listWords depth apart ms ++ .sign .rbrace :: rest)) ≠ .question := by
      cases fs with
      | nil => exact following_methods depth rest
      | cons f' fs => exact nofun
    have hmore := ih (fields ++ [f.unplaced]) fun g hg => hfs g (List.mem_cons_of_mem _ hg)
    rw [members_eq ends, membersRule, bind_of_run (current_run _)]
    change (checkFieldFirst cls [] >>= fun _ => field >>= fun next =>
      members cls (fields ++ [next]) []) _ = _
    rw [bind_of_run (show checkFieldFirst cls [] _ = ((), _) from rfl),
      bind_of_run (field_words (hfs f (List.mem_cons_self ..)) hnext), hmore, List.map_cons,
      List.append_assoc, List.singleton_append]

end Members

end Blocks

section Statements

variable {pos : Pos} {more : List Stmt}

theorem stmtBack_declare {name : Text} {readOnly : Bool} {value : Expr} (h : value.Legible) :
    StmtBack (.declare name readOnly value pos) := by
  intro depth rest faults hends _
  rw [Stmt.words_declare]
  simp only [List.cons_append]
  rw [statement_eq ends, statementRule, current_cons_bind]
  cases readOnly
  all_goals
    simp only [Token.kind_sign, Bool.false_eq_true, if_true, if_false]
    rw [bind_of_run (declaration_words h hends)]
    rfl

theorem stmtBack_function {f : Func} (h : FuncBack f) : StmtBack (.function f) := by
  intro depth rest faults hends _
  rw [Stmt.words_function]
  have hkind : (upTo (f.words depth ++ rest) faults).current.kind = .kwItem := kind_func
  rw [statement_eq ends, statementRule, bind_of_run (current_run _)]
  simp only [hkind]
  exact (h depth rest faults).bind rfl

theorem stmtBack_cls {name : Text} {fields : List Field} {methods : List Func}
    (hfields : ∀ f ∈ fields, f.Legible) (hmethods : MethodsBack methods) :
    StmtBack (.cls name fields methods pos) := by
  intro depth rest faults hends _
  rw [Stmt.words_cls]
  simp only [List.cons_append, List.append_assoc, List.nil_append]
  rw [statement_eq ends, statementRule, current_cons_bind]
  simp only [Token.kind_sign]
  have hmembers := members_fields (depth + 1) rest faults name (!fields.isEmpty) methods [] hfields
  have hmethods := hmethods (depth + 1) (!fields.isEmpty) name ([] ++ fields.map Field.unplaced) []
    rest faults
  rw [← hmembers] at hmethods
  rw [advance_cons_bind, expect_word_bind, expect_sign_bind]
  exact hmethods.bind_pair expect_sign_bind

theorem stmtBack_branch {b : Branch} (h : BranchBack b) : StmtBack (.branch b) := by
  intro depth rest faults _ hpull
  rw [Stmt.words_branch]
  have hkind : (upTo (b.words depth ++ rest) faults).current.kind = .kwBrew := kind_branch
  rw [statement_eq ends, statementRule, bind_of_run (current_run _)]
  simp only [hkind]
  exact (h depth rest faults hpull).bind rfl

theorem stmtBack_loop {test : Expr} {body : List Stmt} {bodyPos : Pos} (htest : test.Legible)
    (hbody : BodyBack body) : StmtBack (.loop test body bodyPos pos) := by
  intro depth rest faults _ _
  rw [Stmt.words_loop]
  simp only [List.cons_append, List.append_assoc, List.nil_append]
  have hblock := block_words (depth + 1) rest faults hbody
  rw [statement_eq ends, statementRule, current_cons_bind]
  simp only [Token.kind_sign]
  rw [advance_cons_bind, bind_of_run (expression_words htest rfl)]
  exact hblock.bind_pair rfl

theorem stmtBack_forEach {name : Text} {collection : Expr} {body : List Stmt}
    {namePos bodyPos : Pos} (hcollection : collection.Legible) (hbody : BodyBack body) :
    StmtBack (.forEach name namePos collection body bodyPos pos) := by
  intro depth rest faults _ _
  rw [Stmt.words_forEach]
  simp only [List.cons_append, List.append_assoc, List.nil_append]
  have hblock := block_words (depth + 1) rest faults hbody
  rw [statement_eq ends, statementRule, current_cons_bind]
  simp only [Token.kind_sign]
  rw [advance_cons_bind, expect_word_bind, expect_sign_bind,
    bind_of_run (expression_words hcollection rfl)]
  exact hblock.bind_pair rfl

theorem stmtBack_ret {value : Option Expr} (h : ∀ e ∈ value, e.Legible) :
    StmtBack (.ret value pos) := by
  intro depth rest faults hends _
  rw [Stmt.words_ret, List.cons_append, statement_eq ends, statementRule, current_cons_bind]
  simp only [Token.kind_sign]
  cases value with
  | none =>
    have hnone : startsExpression (upTo rest faults).current.kind = false := by
      change startsExpression (following rest) = false
      simpa [Stmt.endsBefore] using hends
    have hreturn : returnStmt (upTo (.sign .kwServe :: rest) faults) =
        (.ret none .start, upTo rest faults) := by
      rw [returnStmt, advance_cons_bind, bind_of_run (kind_run _), hnone]
      rfl
    exact bind_of_run hreturn
  | some e =>
    have he := h e rfl
    have hstarts : startsExpression (upTo (e.words ++ rest) faults).current.kind = true := by
      change startsExpression (following _) = true
      rw [following_words he]
      exact e.startsExpression_head
    have hreturn : returnStmt (upTo (.sign .kwServe :: (e.words ++ rest)) faults) =
        (.ret (some e.reread) .start, upTo rest faults) := by
      rw [returnStmt, advance_cons_bind, bind_of_run (kind_run _), hstarts, if_pos rfl,
        bind_of_run (expression_words he hends)]
      rfl
    exact bind_of_run hreturn

theorem stmtBack_print {value : Expr} (h : value.Legible) :
    StmtBack (.print value pos) := by
  intro depth rest faults hends _
  rw [Stmt.words_print, List.cons_append, statement_eq ends, statementRule, current_cons_bind]
  simp only [Token.kind_sign]
  rw [advance_cons_bind, bind_of_run (expression_words h hends)]
  rfl

theorem stmtBack_leave : StmtBack (.leave pos) := fun _ _ _ _ _ => statement_eq ends

/-- Statements that start with an operand read back if the operand is read up to its end. -/
theorem stmtBack_assign {target value : Expr} (htarget : target.Legible) (hvalue : value.Legible) :
    StmtBack (.assign target value pos) := by
  intro depth rest faults hends _
  rw [Stmt.words_assign, List.append_assoc, statement_target htarget, Stmt.readsBack]
  cases hlevel : target.level == 7 with
  | true => exact assign_words htarget (beq_iff_eq.mp hlevel) hvalue hends
  | false => exact stops_target htarget (beq_eq_false_iff_ne.mp hlevel)

theorem stmtBack_bump {op : BumpOp} {target : Expr} (htarget : target.Legible) :
    StmtBack (.bump op target pos) := by
  intro depth rest faults _ _
  rw [Stmt.words_bump, List.append_assoc, statement_target htarget, Stmt.readsBack]
  cases hlevel : target.level == 7 with
  | true => exact bump_words htarget (beq_iff_eq.mp hlevel)
  | false => exact stops_target htarget (beq_eq_false_iff_ne.mp hlevel)

theorem stmtBack_call {callee : Expr} {args : List Expr} {callPos : Pos}
    (h : (Expr.call callee args callPos).Legible) : StmtBack (.call callee args callPos pos) := by
  intro depth rest faults hends _
  rw [Stmt.words_call, statement_target h, Stmt.readsBack]
  cases hback : Expr.callsArrayType callee args with
  | false => exact call_words h hback hends
  | true => exact fun hfaults => absurd (reads_of_faults hfaults) (not_reads_call h hback hends)

theorem bodyBack_nil : BodyBack [] := by
  intro depth rest faults hclose
  have hread : Reads (statementsRule statements closesBlock (attempt statement synchronize))
      (upTo rest faults) [] (upTo rest faults) :=
    reads_statementsRule.mpr (.inl ⟨hclose, rfl, rfl⟩)
  exact (statements_eq ends).trans hread.1

theorem following_body {s : Stmt} {depth : Nat} {rest : List Token} (h : s.Legible) :
    following (Stmt.listWords depth (s :: more) ++ rest) = s.head := by
  rw [Stmt.listWords_cons, List.append_assoc, following_stmt h]

/-- A statement ends where what follows it, or the end of its block, may stand. -/
theorem ends_following {s : Stmt} {rest : List Token} (depth : Nat)
    (h : Stmt.LegibleAll (s :: more)) (hclose : closesBlock (following rest) = true) :
    s.endsBefore (following (Stmt.listWords depth more ++ rest)) = true ∧
      following (Stmt.listWords depth more ++ rest) ≠ .kwPull := by
  cases more with
  | nil =>
    refine ⟨endsBefore_close s hclose, fun hpull => ?_⟩
    have hnone : following rest = .kwPull := hpull
    exact nomatch hnone ▸ hclose
  | cons next more =>
    rw [following_body h.2.2.1]
    exact ⟨h.2.1 next rfl, stmt_head_ne next (.inr (.inr (.inl rfl)))⟩

theorem bodyBack_cons {s : Stmt} (hs : StmtBack s) (hmore : BodyBack more)
    (hlegible : Stmt.LegibleAll (s :: more)) : BodyBack (s :: more) := by
  intro depth rest faults hclose
  have hhead : following (Stmt.listWords depth (s :: more) ++ rest) = s.head :=
    following_body hlegible.1
  have hlength := length_stmt_words hlegible.1 depth
  rw [Stmt.listWords_cons, List.append_assoc] at hhead ⊢
  have hends := ends_following depth hlegible hclose
  have hfirst := hs depth (Stmt.listWords depth more ++ rest) faults hends.1 hends.2
  have hcloses : closesBlock (following (s.words depth ++ (Stmt.listWords depth more ++ rest))) =
      false := by
    rw [hhead]
    exact closesBlock_head s
  rw [statements_eq ends]
  exact outcome_cons hcloses hfirst (by simp only [List.length_append] at hlength ⊢; omega)
    (fun _ hkind _ _ => not_reads_statements hkind) (hmore depth rest faults hclose)

end Statements

mutual

/-- The tokens of a legible statement are read as the statement, if it reads back. -/
theorem stmtBack (s : Stmt) (h : s.Legible) : StmtBack s := by
  cases s with
  | declare => exact stmtBack_declare h.2
  | function f => exact stmtBack_function (funcBack f h)
  | cls name fields methods => exact stmtBack_cls h.2.1 (methodsBack methods h.2.2)
  | assign => exact stmtBack_assign h.1 h.2
  | bump => exact stmtBack_bump h
  | branch b => exact stmtBack_branch (branchBack b h)
  | loop test body => exact stmtBack_loop h.1 (bodyBack body h.2)
  | forEach name namePos collection body => exact stmtBack_forEach h.2.1 (bodyBack body h.2.2)
  | leave => exact stmtBack_leave
  | ret => exact stmtBack_ret h
  | print => exact stmtBack_print h
  | call => exact stmtBack_call h

theorem funcBack (f : Func) (h : f.Legible) : FuncBack f := by
  obtain ⟨name, params, result, body, bodyPos, pos⟩ := f
  exact funcBack_mk h.2.1 h.2.2.1 (bodyBack body h.2.2.2)

theorem branchBack (b : Branch) (h : b.Legible) : BranchBack b := by
  obtain ⟨test, body, bodyPos, otherwise, pos⟩ := b
  exact branchBack_mk h.1 (bodyBack body h.2.1) (otherwiseBack otherwise h.2.2)

theorem otherwiseBack (o : Otherwise) (h : o.Legible) : OtherwiseBack o := by
  cases o with
  | nothing => exact otherwiseBack_nothing
  | block body => exact otherwiseBack_block (bodyBack body h)
  | chain next => exact otherwiseBack_chain (branchBack next h)

theorem bodyBack (body : List Stmt) (h : Stmt.LegibleAll body) : BodyBack body := by
  cases body with
  | nil => exact bodyBack_nil
  | cons s more => exact bodyBack_cons (stmtBack s h.1) (bodyBack more h.2.2) h

theorem methodsBack (fs : List Func) (h : Func.LegibleAll fs) : MethodsBack fs := by
  cases fs with
  | nil => exact methodsBack_nil
  | cons f more => exact methodsBack_cons (funcBack f h.1) (methodsBack more h.2)

end

/-- The tokens of a legible program are read as the program if it reads back; otherwise they are a
fault. -/
theorem program_words (p : Program) (h : Stmt.LegibleAll p) {faults : List (Fault × Pos)} :
    BackOrFault p.readsBack (program (upTo (Stmt.listWords 0 p) faults)) p.reread
      (upTo [] faults) := by
  induction p with
  | nil =>
    have hread : Reads (statementsRule program (· == .eof) (attempt statement resume))
        (upTo [] faults) [] (upTo [] faults) :=
      reads_statementsRule.mpr (.inl ⟨rfl, rfl, rfl⟩)
    exact (program_eq ends).trans hread.1
  | cons s more ih =>
    have hlength := length_stmt_words h.1 0
    have hclose : closesBlock (following []) = true := rfl
    have hends := ends_following 0 h hclose
    rw [List.append_nil] at hends
    have hfirst := stmtBack s h.1 0 (Stmt.listWords 0 more) faults hends.1 hends.2
    have hcloses : (following (s.words 0 ++ Stmt.listWords 0 more) == .eof) = false := by
      rw [following_stmt h.1]
      exact beq_eq_false_iff_ne.mpr (stmt_head_ne s (.inr (.inl rfl)))
    rw [Stmt.listWords_cons, program_eq ends]
    exact outcome_cons hcloses hfirst (by simp only [List.length_append]; omega)
      (fun _ hkind _ _ => not_reads_program hkind) (ih h.2.2)

end PeakLang.Tree.Parser
