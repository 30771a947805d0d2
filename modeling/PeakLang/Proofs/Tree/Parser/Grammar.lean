import PeakLang.Proofs.Tree.Parser.Regular

namespace PeakLang.Tree.Parser

open State (wider)

variable {f : Pos → Pos} {b : Option Nat}

/-- Rules that refer to one another: what each is given and what it finds, and how many calls it may take
beyond those for the tokens ahead, in general and where a token is at hand. -/
structure Grammar where
  Rule : Type
  Arg : Rule → Type
  Out : Rule → Type
  moveArg : (Pos → Pos) → (r : Rule) → Arg r → Arg r
  moveOut : (Pos → Pos) → (r : Rule) → Out r → Out r
  weight : Nat
  rank : Rule → Nat
  rankAhead : Rule → Nat := rank

namespace Grammar

/-- A parser for each rule. -/
abbrev Parsers (G : Grammar) : Type := (r : G.Rule) → G.Arg r → Parse (G.Out r)

/-- The states where a rule needs less fuel than a limit. -/
def Enough (G : Grammar) (limit : Option Nat) (r : G.Rule) (s : State) : Prop :=
  s.Below limit G.weight (G.rank r) ∨ s.BelowAhead limit G.weight (G.rankAhead r)

/-- The laws of the parsers for a grammar, where fuel is left. -/
def Laws (G : Grammar) (limit : Option Nat) (f : Pos → Pos) (p q : G.Parsers) : Prop :=
  ∀ r a, RegularIf (G.Enough limit r) f (G.moveOut f r) (p r a) (q r (G.moveArg f r a))

variable {G : Grammar} {limit : Option Nat} {p q : G.Parsers} {rank : Nat}

namespace Laws

variable (h : G.Laws limit f p q) (hb : State.Fits limit G.weight rank b) (r : G.Rule) (a : G.Arg r)
include h hb

/-- What is called with fewer tokens ahead. -/
theorem fewer (hrank : G.rank r < G.weight + rank := by decide) :
    Regular b f (G.moveOut f r) (p r a) (q r (G.moveArg f r a)) :=
  (h r a).mono fun s hs => .inl (hb.fewer hrank s hs)

/-- What is called with the same tokens ahead. -/
theorem same (hrank : G.rank r < rank := by decide) :
    Regular (wider b) f (G.moveOut f r) (p r a) (q r (G.moveArg f r a)) :=
  (h r a).mono fun s hs => .inl (hb.same hrank s hs)

theorem ahead (hrank : G.rankAhead r < rank := by decide) :
    RegularIf (State.Ahead (wider b)) f (G.moveOut f r) (p r a) (q r (G.moveArg f r a)) :=
  (h r a).mono fun s hs => .inr (hb.ahead hrank s hs)

end Laws

end Grammar

namespace RegularIf

variable {G : Grammar} {limit : Option Nat} {r : G.Rule} {α β : Type} {view : α → β} {p : Parse α}
  {q : Parse β}

theorem of_enough (hrank : G.rankAhead r = G.rank r)
    (h : ∀ b, State.Fits limit G.weight (G.rank r) b → Regular (wider b) f view p q) :
    RegularIf (G.Enough (wider limit) r) f view p q :=
  (of_fits h).mono fun _ hs => hs.elim id fun hs => hrank ▸ hs.1

theorem of_enough_ahead (h : ∀ b, State.Fits limit G.weight (G.rank r) b → Regular (wider b) f view p q)
    (h' : ∀ b, State.Fits limit G.weight (G.rankAhead r) b →
      RegularIf (State.Ahead (wider b)) f view p q) :
    RegularIf (G.Enough (wider limit) r) f view p q where
  records s hs := hs.elim ((of_fits h).records s) ((of_fits_ahead h').records s)
  moved s hs := hs.elim ((of_fits h).moved s) ((of_fits_ahead h').moved s)

/-- A parser whose fuel is set by the number of tokens ahead. -/
theorem of_fuel {cond : State → Prop} {p : Nat → Parse α} {q : Nat → Parse β} (fuel : Nat → Nat)
    (h : ∀ n, RegularIf (G.Enough none r) f view (p n) (q n)) :
    RegularIf cond f view (MonadState.get >>= fun s => p (fuel s.ahead.length))
      (MonadState.get >>= fun s => q (fuel s.ahead.length)) := by
  refine .andThen .get (fun _ hs => hs) fun s => ?_
  rw [State.length_ahead_moved]
  exact (h _).mono fun _ _ => .inl nofun

end RegularIf

/-- A list of things, each read by one rule, as long as there are more. -/
abbrev listGrammar {α : Type} (views : (Pos → Pos) → List α → List α) : Grammar where
  Rule := Unit
  Arg _ := Unit
  Out _ := List α
  moveArg _ _ := id
  moveOut f _ := views f
  weight := 1
  rank _ := 0

section Types

theorem optionals_regular (t : TypeExpr) :
    Regular b f (TypeExpr.moved f) (optionals t) (optionals (t.moved f)) where
  records s _ := by
    rw [optionals_run]
    exact ⟨_, _, .of_suffix (List.dropWhile_suffix _)⟩
  moved s _ := by
    have hfold (marks : List Token) (t : TypeExpr) :
        (marks.map (Token.moved f)).foldl (fun t mark => .optional t mark.pos) (t.moved f) =
          (marks.foldl (fun t mark => .optional t mark.pos) t).moved f := by
      induction marks generalizing t with
      | nil => rfl
      | cons mark marks ih => exact ih (.optional t mark.pos)
    simp only [optionals_run, ← hfold]
    simp [State.moved, List.takeWhile_map, List.dropWhile_map, Function.comp_def, Token.moved]

inductive TypeRule where
  | type
  | types

abbrev typeGrammar : Grammar where
  Rule := TypeRule
  Arg _ := Unit
  Out
    | .type => TypeExpr
    | .types => List TypeExpr
  moveArg _ _ := id
  moveOut f
    | .type => TypeExpr.moved f
    | .types => TypeExpr.movedAll f
  weight := 2
  rank
    | .type => 0
    | .types => 1

/-- The rules of types, with parsers for what they refer to. -/
def typeRules (p : typeGrammar.Parsers) : typeGrammar.Parsers
  | .type, _ => typeRule (p .type ()) (p .types ())
  | .types, _ => separated (p .type ()) (p .types ())

def typeParsers (fuel : Nat) : typeGrammar.Parsers
  | .type, _ => typeWith fuel
  | .types, _ => typesWith fuel

theorem typeParsers_succ (fuel : Nat) : typeParsers (fuel + 1) = typeRules (typeParsers fuel) := by
  funext r
  cases r <;> rfl

section Laws

variable {p q : typeGrammar.Parsers} {limit : Option Nat}

theorem typeRule_regular (h : typeGrammar.Laws limit f p q) (hb : State.Fits limit 2 0 b) :
    Regular (wider b) f (TypeExpr.moved f) (typeRules p .type ()) (typeRules q .type ()) := by
  have htype := h.fewer hb .type ()
  refine .current_bind fun token => ?_
  simp only [Token.moved]
  split
  case h_1 hkind => exact .take hkind (by decide) fun _ => optionals_regular _
  case h_2 hkind =>
    refine .take hkind (by decide) fun _ => .bind htype fun base => .bind (.expect _) fun _ => ?_
    exact optionals_regular (.array base token.pos)
  case h_3 hkind =>
    refine .take hkind (by decide) fun _ => .bind (.at? _) fun _ => ?_
    refine .ite (.bind (.pure [] : Regular b f (TypeExpr.movedAll f) _ _) ?_)
      (.bind (h.fewer hb .types ()) ?_)
    all_goals
      intro params
      refine .bind (.expect _) fun _ => .bind (.expect _) fun _ => .bind htype fun result => ?_
      exact optionals_regular (.function params result token.pos)
  case h_4 => exact .bind (.unexpected _) fun _ => .pure (TypeExpr.named errorName token.pos)

theorem typeRules_laws (h : typeGrammar.Laws limit f p q) :
    typeGrammar.Laws (wider limit) f (typeRules p) (typeRules q)
  | .type, _ => .of_enough rfl fun _ => typeRule_regular h
  | .types, _ => .of_enough rfl fun _ hb =>
    .separated rfl (fun _ _ => rfl) (h.same hb .type ()) (h.fewer hb .types ())

end Laws

theorem typeParsers_laws (fuel : Nat) :
    typeGrammar.Laws none f (typeParsers fuel) (typeParsers fuel) := by
  induction fuel with
  | zero =>
    intro r
    cases r with
    | type | types => exact fun _ => .exhausted (by exact fun _ => rfl)
  | succ fuel ih =>
    rw [typeParsers_succ]
    exact typeRules_laws ih

theorem type_regular : Regular b f (TypeExpr.moved f) type type :=
  .of_fuel (2 * · + 2) fun n => typeParsers_laws n .type ()

end Types

section Expressions

theorem emptyArray?_regular : Regular b f (Option.map (Expr.moved f)) emptyArray? emptyArray? := by
  refine .bind .current fun token => .speculate ?_
  refine .bind type_regular fun t => .bind (.accept _) fun _ => .ite ?_ (.pure none)
  refine .bind (.accept _) fun _ => .ite ?_ (.pure none)
  exact .pure (some (Expr.emptyArray t token.pos))

theorem emptyArray?_fails (s : State) (h : (emptyArray? s).1 = none) : (emptyArray? s).2 = s :=
  speculate_fails h

inductive ExprRule where
  | expression
  | operation
  | operations
  | factor
  | access
  | accesses
  | primary
  | expressions

abbrev exprGrammar : Grammar where
  Rule := ExprRule
  Arg
    | .operation => Nat
    | .operations => Nat × Bool × Expr
    | .accesses => Expr
    | _ => Unit
  Out
    | .expressions => List Expr
    | _ => Expr
  moveArg f
    | .operations => fun (level, compared, left) => (level, compared, left.moved f)
    | .accesses => Expr.moved f
    | .expression | .operation | .factor | .access | .primary | .expressions => id
  moveOut f
    | .expressions => Expr.movedAll f
    | .expression | .operation | .operations | .factor | .access | .accesses | .primary => Expr.moved f
  weight := 6
  rank
    | .expression => 4
    | .operation => 3
    | .factor => 2
    | .access => 1
    | .operations | .accesses | .primary => 0
    | .expressions => 5

/-- The rules of expressions, with parsers for what they refer to. -/
def exprRules (p : exprGrammar.Parsers) : exprGrammar.Parsers
  | .expression, _ => expressionRule (p .expression ()) (p .operation)
  | .operation, level =>
    operationRule (p .factor ()) (fun level compared left => p .operations (level, compared, left)) level
  | .operations, (level, compared, left) =>
    operationsRule (p .operation) (fun level compared left => p .operations (level, compared, left))
      level compared left
  | .factor, _ => factorRule (p .factor ()) (p .access ())
  | .access, _ => accessRule (p .primary ()) (p .accesses)
  | .accesses, object => accessesRule (p .expression ()) (p .expressions ()) (p .accesses) object
  | .primary, _ => primaryRule (p .expression ()) (p .expressions ())
  | .expressions, _ => separated (p .expression ()) (p .expressions ())

def exprParsers (fuel : Nat) : exprGrammar.Parsers
  | .expression, _ => expressionWith fuel
  | .operation, level => operationWith fuel level
  | .operations, (level, compared, left) => operationsWith fuel level compared left
  | .factor, _ => factorWith fuel
  | .access, _ => accessWith fuel
  | .accesses, object => accessesWith fuel object
  | .primary, _ => primaryWith fuel
  | .expressions, _ => expressionsWith fuel

theorem exprParsers_succ (fuel : Nat) : exprParsers (fuel + 1) = exprRules (exprParsers fuel) := by
  funext r
  cases r <;> rfl

theorem ne_eof_of_operatorFrom? {level : Nat} {k : TokenKind} {op : BinaryOp}
    (h : operatorFrom? level k = some op) : k ≠ .eof := by
  rintro rfl
  cases h

theorem ne_eof_of_unary {k : TokenKind} {op : UnaryOp} (h : UnaryOp.ofToken? k = some op) :
    k ≠ .eof := by
  rintro rfl
  cases h

section Laws

variable {p q : exprGrammar.Parsers} {limit : Option Nat}

theorem expressionRule_regular (h : exprGrammar.Laws limit f p q) (hb : State.Fits limit 6 4 b) :
    Regular (wider b) f (Expr.moved f) (exprRules p .expression ()) (exprRules q .expression ()) := by
  have hexpression := h.fewer hb .expression ()
  refine .bind (h.same hb .operation 1) fun test => ?_
  refine .accept_bind (by decide) ?_ (.pure test)
  refine .bind hexpression fun consequent => .bind (.expect _) fun colon => ?_
  exact .bind hexpression fun alternate =>
    .pure (Expr.conditional test consequent alternate colon.pos)

theorem operationsRule_regular (h : exprGrammar.Laws limit f p q) (hb : State.Fits limit 6 0 b) (level : Nat)
    (compared : Bool) (left : Expr) :
    Regular (wider b) f (Expr.moved f) (exprRules p .operations (level, compared, left))
      (exprRules q .operations (level, compared, left.moved f)) := by
  refine .current_bind fun token => ?_
  simp only [Token.moved]
  split
  · exact .pure left
  · rename_i op hop
    have hkind := ne_eof_of_operatorFrom? hop
    have hright (u : Unit) := h.fewer hb .operation (op.level + 1)
    have hmore (right : Expr) := h.fewer hb .operations
      (level, compared || op.isComparison, .binary op left right token.pos)
    -- A comparison that may not follow is found at its operator, which is taken by then.
    by_cases hchained : (op.isComparison && compared) = true
    · simp only [if_pos hchained]
      exact .take_fault _ hkind fun u => .bind (hright u) hmore
    · simp only [if_neg hchained]
      exact .take rfl hkind fun _ => .bind (hright ()) hmore

theorem factorRule_regular (h : exprGrammar.Laws limit f p q) (hb : State.Fits limit 6 2 b) :
    Regular (wider b) f (Expr.moved f) (exprRules p .factor ()) (exprRules q .factor ()) := by
  have hfactor := h.fewer hb .factor ()
  refine .current_bind fun token => ?_
  simp only [Token.moved]
  split
  · rename_i op hop
    exact .take rfl (ne_eof_of_unary hop) fun _ => .bind hfactor fun x =>
      .pure (Expr.unary op x token.pos)
  · refine .bind (h.same hb .access ()).of_regular fun left => ?_
    refine .current_bind fun token => ?_
    by_cases hpower : token.kind = .power
    · simp only [Token.moved, hpower, beq_self_eq_true, if_true]
      exact .take hpower (by decide) fun _ => .bind hfactor fun right =>
        .pure (Expr.binary .pow left right token.pos)
    · simp only [Token.moved, beq_eq_false_iff_ne.mpr hpower, Bool.false_eq_true, if_false]
      exact .pure left

theorem accessesRule_regular (h : exprGrammar.Laws limit f p q) (hb : State.Fits limit 6 0 b)
    (object : Expr) :
    Regular (wider b) f (Expr.moved f) (exprRules p .accesses object)
      (exprRules q .accesses (object.moved f)) := by
  have haccesses (object : Expr) := h.fewer hb .accesses object
  refine .current_bind fun token => ?_
  simp only [Token.moved]
  split
  case h_1 hkind =>
    refine .take hkind (by decide) fun _ => .bind (h.fewer hb .expression ()) fun i => ?_
    exact .bind (.expect _) fun _ => haccesses (.index object i token.pos)
  case h_2 hkind =>
    refine .take hkind (by decide) fun _ => .bind (.expect _) fun name => ?_
    exact haccesses (.member object name.literal name.pos)
  case h_3 hkind =>
    refine .take hkind (by decide) fun _ => .bind (.at? _) fun _ => ?_
    refine .ite (.bind (.pure [] : Regular b f (Expr.movedAll f) _ _) ?_)
      (.bind (h.fewer hb .expressions ()) ?_)
    all_goals
      intro args
      exact .bind (.expect _) fun _ => haccesses (.call object args token.pos)
  case h_4 => exact .pure object

theorem primaryRule_regular (h : exprGrammar.Laws limit f p q) (hb : State.Fits limit 6 0 b) :
    Regular (wider b) f (Expr.moved f) (exprRules p .primary ()) (exprRules q .primary ()) := by
  refine .current_bind fun token => ?_
  simp only [Token.moved]
  split
  · exact .bind .advance fun _ => .pure (Expr.int token.literal token.pos)
  · exact .bind .advance fun _ => .pure (Expr.float token.literal token.pos)
  · exact .bind .advance fun _ => .pure (Expr.string (StringLiteral.decode token.literal) token.pos)
  · exact .bind .advance fun _ => .pure (Expr.bool true token.pos)
  · exact .bind .advance fun _ => .pure (Expr.bool false token.pos)
  · exact .bind .advance fun _ => .pure (Expr.shot token.pos)
  · exact .bind .advance fun _ => .pure (Expr.name token.literal token.pos)
  case h_8 hkind =>
    refine .take hkind (by decide) fun _ => .bind (h.fewer hb .expression ()) fun inner => ?_
    exact .bind (.expect _) fun _ => .pure inner
  case h_9 hkind =>
    refine .trial_bind emptyArray?_regular.of_regular emptyArray?_fails (fun e => .pure e) ?_
    refine .take hkind (by decide) fun _ => .bind (.at? _) fun _ => ?_
    refine .ite (.bind (.pure [] : Regular b f (Expr.movedAll f) _ _) ?_)
      (.bind (h.fewer hb .expressions ()) ?_)
    all_goals
      intro elements
      exact .bind (.expect _) fun _ => .pure (Expr.array elements token.pos)
  · refine .bind (.unexpected _) fun _ => .bind .advance fun _ => ?_
    exact .pure (Expr.name errorName token.pos)

theorem exprRules_laws (h : exprGrammar.Laws limit f p q) :
    exprGrammar.Laws (wider limit) f (exprRules p) (exprRules q)
  | .expression, _ => .of_enough rfl fun _ => expressionRule_regular h
  | .operation, level => .of_enough rfl fun _ hb => .bind (h.same hb .factor ()) fun left =>
    h.same hb .operations (level, false, left)
  | .operations, (level, compared, left) =>
    .of_enough rfl fun _ hb => operationsRule_regular h hb level compared left
  | .factor, _ => .of_enough rfl fun _ => factorRule_regular h
  | .access, _ => .of_enough rfl fun _ hb => .bind (h.same hb .primary ()) fun object =>
    h.same hb .accesses object
  | .accesses, object => .of_enough rfl fun _ hb => accessesRule_regular h hb object
  | .primary, _ => .of_enough rfl fun _ => primaryRule_regular h
  | .expressions, _ => .of_enough rfl fun _ hb =>
    .separated rfl (fun _ _ => rfl) (h.same hb .expression ()) (h.fewer hb .expressions ())

end Laws

theorem exprParsers_laws (fuel : Nat) :
    exprGrammar.Laws none f (exprParsers fuel) (exprParsers fuel) := by
  induction fuel with
  | zero =>
    intro r
    cases r with
    | _ => exact fun _ => .exhausted (by exact fun _ => rfl)
  | succ fuel ih =>
    rw [exprParsers_succ]
    exact exprRules_laws ih

theorem expression_regular : Regular b f (Expr.moved f) expression expression :=
  .of_fuel (8 * · + 8) fun n => exprParsers_laws n .expression ()

theorem access_regular : Regular b f (Expr.moved f) access access :=
  .of_fuel (8 * · + 8) fun n => exprParsers_laws n .access ()

end Expressions

section Statements

theorem typedName_regular :
    Regular b f (fun x => (x.1, x.2.1.moved f, f x.2.2)) typedName typedName := by
  refine .bind (.expect _) fun name => .bind (.expect _) fun _ => .bind type_regular fun t => ?_
  exact .pure (name.literal, t, name.pos)

theorem param_regular : Regular b f (Param.moved f) param param :=
  .bind typedName_regular fun x => .pure (Param.mk x.1 x.2.1 x.2.2)

theorem field_regular : Regular b f (Field.moved f) field field :=
  .bind typedName_regular fun x => .pure (Field.mk x.1 x.2.1 x.2.2)

abbrev paramGrammar : Grammar := listGrammar fun f => List.map (Param.moved f)

def paramRules (p : paramGrammar.Parsers) : paramGrammar.Parsers := fun _ _ => separated param (p () ())

theorem paramRules_laws {limit : Option Nat} {p q : paramGrammar.Parsers}
    (h : paramGrammar.Laws limit f p q) :
    paramGrammar.Laws (wider limit) f (paramRules p) (paramRules q) := fun () _ =>
  .of_enough rfl fun _ hb => .separated rfl (fun _ _ => rfl) param_regular (h.fewer hb () ())

theorem paramParsers_laws (fuel : Nat) :
    paramGrammar.Laws none f (fun _ _ => paramsWith fuel) (fun _ _ => paramsWith fuel) := by
  induction fuel with
  | zero => exact fun _ _ => .exhausted (by exact fun _ => rfl)
  | succ fuel ih => exact paramRules_laws ih

theorem params_regular : Regular b f (List.map (Param.moved f)) params params :=
  .bind (.at? _) fun _ => .ite (.pure []) (.of_fuel (· + 1) fun n => paramParsers_laws n () ())

theorem declaration_regular (readOnly : Bool) :
    Regular b f (Stmt.moved f) (declaration readOnly) (declaration readOnly) := by
  refine .bind .advance fun _ => .bind (.expect _) fun name => .bind (.expect _) fun _ => ?_
  exact .bind expression_regular fun value =>
    .pure (Stmt.declare name.literal readOnly value name.pos)

theorem returnStmt_regular : Regular b f (Stmt.moved f) returnStmt returnStmt := by
  refine .bind .advance fun token => .bind .kind fun _ => .ite ?_ (.pure (Stmt.ret none token.pos))
  exact .bind expression_regular fun value => .pure (Stmt.ret (some value) token.pos)

theorem simpleStmtFrom_regular (pos : Pos) (before : Nat) (target : Expr) :
    Regular b f (Option.map (Stmt.moved f)) (simpleStmtFrom pos before target)
      (simpleStmtFrom (f pos) before (target.moved f)) := by
  refine .current_bind fun token => ?_
  simp only [Token.moved]
  split
  · rename_i op _
    exact .bind .advance fun _ => .pure (some (Stmt.bump op target pos))
  · refine .ite ?_ ?_
    · refine .bind .advance fun _ => .bind expression_regular fun value => ?_
      exact .pure (some (Stmt.assign target value pos))
    · cases target with
      | call callee args callPos => exact .pure (some (Stmt.call callee args callPos pos))
      | _ =>
        refine .andThen .faultCount (fun _ hs => hs) fun _ => .ite ?_ (.pure none)
        exact .bind (.unexpected _) fun _ => .pure none

theorem simpleStmt_regular : Regular b f (Option.map (Stmt.moved f)) simpleStmt simpleStmt := by
  refine .bind .current fun first => .bind .faultCount fun before => ?_
  exact .bind access_regular fun target => simpleStmtFrom_regular first.pos before target

theorem checkFieldFirst_regular (cls : Text) (methods : List Func) :
    Regular b f id (checkFieldFirst cls methods) (checkFieldFirst cls (Func.movedAll f methods)) := by
  refine .current_bind fun token => ?_
  have hempty : (Func.movedAll f methods).isEmpty = methods.isEmpty := by cases methods <;> rfl
  rw [hempty]
  exact .ite (.fault _) (.pure ())

theorem checkFieldFirst_at {cls : Text} {methods : List Func} {token : Token} (s : State)
    (h : s.At b token) : (checkFieldFirst cls methods s).2.At b token := by
  rw [checkFieldFirst, bind_run, current_run]
  split <;> exact h

theorem movedAll_toList (s : Option Stmt) :
    (s.map (Stmt.moved f)).toList = Stmt.movedAll f s.toList := by cases s <;> rfl

/-- One statement of a list, with or without the guard that drops a token which nothing takes. -/
def attemptIf (guarded : Bool) (statement : Parse (Option Stmt)) (recover : Parse Unit) :
    Parse (List Stmt) :=
  bif guarded then attempt statement recover else recovered statement recover

section Lists

variable {statement statement' : Parse (Option Stmt)} {recover : Parse Unit}

theorem recovered_regular
    (hstatement : Regular b f (Option.map (Stmt.moved f)) statement statement')
    (hrecover : Regular b f id recover recover) :
    Regular b f (Stmt.movedAll f) (recovered statement recover) (recovered statement' recover) := by
  refine .bind .faultCount fun _ => .bind hstatement fun first => .bind .faultCount fun _ => ?_
  rw [movedAll_toList]
  exact .ite (.bind hrecover fun _ => .pure first.toList) (.pure first.toList)

theorem attempt_regular
    (hstatement : Regular b f (Option.map (Stmt.moved f)) statement statement')
    (hrecover : Regular b f id recover recover) :
    Regular b f (Stmt.movedAll f) (attempt statement recover) (attempt statement' recover) := by
  refine .bind .get fun s => ?_
  rw [State.length_ahead_moved]
  refine .bind (recovered_regular hstatement hrecover) fun first => .bind .get fun s' => ?_
  rw [State.length_ahead_moved]
  exact .ite (.bind .advance fun _ => .pure first) (.pure first)

theorem attempt_run (s : State) :
    attempt statement recover s =
      if (recovered statement recover s).2.ahead.length = s.ahead.length then
        ((recovered statement recover s).1, (recovered statement recover s).2.advanced)
      else recovered statement recover s := by
  generalize hrun : recovered statement recover s = r
  have hattempt : attempt statement recover s =
      (if r.2.ahead.length == s.ahead.length then advance >>= fun _ => pure r.1 else pure r.1) r.2 := by
    subst hrun
    rfl
  rw [hattempt]
  by_cases hsame : r.2.ahead.length = s.ahead.length
  · rw [if_pos (beq_iff_eq.mpr hsame), if_pos hsame]
    rfl
  · rw [if_neg (mt beq_iff_eq.mp hsame), if_neg hsame]
    rfl

variable {s : State}

/-- A statement of a list takes a token, if only because the guard does. -/
theorem attempt_within (hstatement : Regular (wider b) f (Option.map (Stmt.moved f)) statement statement')
    (hrecover : Regular (wider b) f id recover recover) (hs : s.Within (wider b))
    (hkind : s.current.kind ≠ .eof) : (attempt statement recover s).2.Within b := by
  have hadvances := (recovered_regular hstatement hrecover).advances hs
  rw [attempt_run]
  split
  case isTrue hsame =>
    refine hs.of_shorter (hadvances.trans (Records.advanced _).advances) fun _ _ hlast => ?_
    rw [← hsame]
    refine State.length_advanced fun hnil => State.ahead_ne_nil hkind hlast ?_
    rwa [hnil, eq_comm, List.length_nil, List.length_eq_zero_iff] at hsame
  case isFalse hne =>
    exact hs.of_shorter hadvances fun _ _ _ => Nat.lt_of_le_of_ne hadvances.ahead.length_le hne

/-- The guard is not needed where every statement takes a token. -/
theorem attempt_eq_recovered (hrecover : Regular none f id recover recover)
    (hshorter : Takes statement s) :
    attempt statement recover s = recovered statement recover s := by
  rw [attempt_run, if_neg]
  apply Nat.ne_of_lt
  unfold Takes at hshorter
  generalize hrun : statement s = r at hshorter
  have hrecovered : recovered statement recover s =
      (if s.faults.length < r.2.faults.length then recover >>= fun _ => pure r.1.toList
        else pure r.1.toList) r.2 := by
    subst hrun
    rfl
  rw [hrecovered]
  by_cases hfaults : s.faults.length < r.2.faults.length
  · rw [if_pos hfaults]
    exact Nat.lt_of_le_of_lt (hrecover.advances nofun).ahead.length_le hshorter
  · rw [if_neg hfaults]
    exact hshorter

theorem attemptIf_regular {cond : State → Prop} [hb : Bounded cond b] (guarded : Bool)
    (hstatement : Regular b f (Option.map (Stmt.moved f)) statement statement')
    (hrecover : ∀ b, Regular b f id recover recover)
    (hshorter : guarded = false → ∀ s, cond s → Takes statement s) :
    RegularIf cond f (Stmt.movedAll f) (attempt statement recover)
      (attemptIf guarded statement' recover) := by
  cases guarded with
  | true => exact (attempt_regular hstatement (hrecover b)).of_regular
  | false =>
    have h := recovered_regular hstatement (hrecover b)
    constructor
    · intro s hs
      rw [attempt_eq_recovered (hrecover none) (hshorter rfl s hs)]
      exact h.records s (hb.within s hs)
    · intro s hs
      rw [attempt_eq_recovered (hrecover none) (hshorter rfl s hs)]
      exact h.moved s (hb.within s hs)

theorem statementsRule_regular {closes : TokenKind → Bool} {first first' more more' : Parse (List Stmt)}
    (hcloses : closes .eof = true)
    (hfirst : RegularIf (State.Ahead (wider b)) f (Stmt.movedAll f) first first')
    (hshorter : ∀ s, s.Ahead (wider b) → (first s).2.Within b)
    (hmore : Regular b f (Stmt.movedAll f) more more') :
    Regular (wider b) f (Stmt.movedAll f) (statementsRule more closes first)
      (statementsRule more' closes first') := by
  refine .kind_bind fun token => ?_
  by_cases hkind : closes token.kind = true
  · simp only [hkind, if_true]
    exact .pure []
  · have hat (s : State) (hs : s.At (wider b) token) : s.Ahead (wider b) :=
      ⟨hs.1, fun heof => hkind (by rw [← hs.2, heof, hcloses])⟩
    simp only [hkind, Bool.false_eq_true, if_false]
    refine .andThen (hfirst.mono hat) (fun s hs => hshorter s (hat s hs)) fun xs => ?_
    refine .bind hmore fun rest => ?_
    rw [← Stmt.movedAll_append]
    exact .pure (xs ++ rest)

end Lists

inductive StmtRule where
  | statement
  | function
  | members
  | branch
  | otherwise
  | block
  | statements

/-- A function or a branch whose first token is at hand needs less fuel. -/
abbrev stmtGrammar : Grammar where
  Rule := StmtRule
  Arg
    | .members => Text × List Field × List Func
    | _ => Unit
  Out
    | .statement => Option Stmt
    | .function => Func
    | .members => List Field × List Func
    | .branch => Branch
    | .otherwise => Otherwise
    | .block => List Stmt × Pos
    | .statements => List Stmt
  moveArg f
    | .members => fun (cls, fields, methods) =>
      (cls, fields.map (Field.moved f), Func.movedAll f methods)
    | .statement | .function | .branch | .otherwise | .block | .statements => id
  moveOut f
    | .statement => Option.map (Stmt.moved f)
    | .function => Func.moved f
    | .members => fun x => (x.1.map (Field.moved f), Func.movedAll f x.2)
    | .branch => Branch.moved f
    | .otherwise => Otherwise.moved f
    | .block => fun x => (Stmt.movedAll f x.1, f x.2)
    | .statements => Stmt.movedAll f
  weight := 5
  rank
    | .otherwise => 0
    | .statement | .members => 1
    | .statements => 2
    | .block => 3
    | .function | .branch => 4
  rankAhead
    | .otherwise | .function | .branch => 0
    | .statement | .members => 1
    | .statements => 2
    | .block => 3

/-- The rules of statements, with parsers for what they refer to. -/
def stmtRules (guarded : Bool) (p : stmtGrammar.Parsers) : stmtGrammar.Parsers
  | .statement, _ => statementRule (p .function ()) (p .branch ()) (p .block ())
    fun cls fields methods => p .members (cls, fields, methods)
  | .function, _ => functionRule (p .block ())
  | .members, (cls, fields, methods) =>
    membersRule (p .function ()) (fun cls fields methods => p .members (cls, fields, methods))
      cls fields methods
  | .branch, _ => branchRule (p .otherwise ()) (p .block ())
  | .otherwise, _ => otherwiseRule (p .branch ()) (p .block ())
  | .block, _ => blockRule (p .statements ())
  | .statements, _ =>
    statementsRule (p .statements ()) closesBlock (attemptIf guarded (p .statement ()) synchronize)

def stmtParsers (fuel : Nat) : stmtGrammar.Parsers
  | .statement, _ => statementWith fuel
  | .function, _ => functionWith fuel
  | .members, (cls, fields, methods) => membersWith fuel cls fields methods
  | .branch, _ => branchWith fuel
  | .otherwise, _ => otherwiseWith fuel
  | .block, _ => blockWith fuel
  | .statements, _ => statementsWith fuel

theorem stmtParsers_succ (fuel : Nat) :
    stmtParsers (fuel + 1) = stmtRules true (stmtParsers fuel) := by
  funext r
  cases r <;> rfl

/-- A statement or a function takes a token, if there is one. -/
structure Shortens (p : stmtGrammar.Parsers) : Prop where
  statement : ∀ s, s.ahead ≠ [] → Takes (p .statement ()) s
  function : ∀ s, s.ahead ≠ [] → Takes (p .function ()) s

section Laws

variable {p q : stmtGrammar.Parsers} {limit : Option Nat} {cond : State → Prop}
  {block block' : Parse (List Stmt × Pos)} {otherwise otherwise' : Parse Otherwise}

theorem statementRule_regular (h : stmtGrammar.Laws limit f p q) (hb : State.Fits limit 5 1 b) :
    Regular (wider b) f (Option.map (Stmt.moved f)) (stmtRules true p .statement ())
      (stmtRules true q .statement ()) := by
  have hblock := h.fewer hb .block ()
  refine .current_bind fun token => ?_
  have hat {kind : TokenKind} (hkind : token.kind = kind) (hne : kind ≠ .eof) (s : State)
      (hs : s.At (wider b) token) : s.Ahead (wider b) := ⟨hs.1, by rwa [hs.2, hkind]⟩
  simp only [Token.moved]
  split
  · exact .bind (declaration_regular _).of_regular fun s => .pure (some s)
  · exact .bind (declaration_regular _).of_regular fun s => .pure (some s)
  case h_3 hkind =>
    exact .bind ((h.ahead hb .function ()).mono (hat hkind (by decide))) fun f =>
      .pure (some (Stmt.function f))
  case h_4 hkind =>
    refine .take hkind (by decide) fun _ => .bind (.expect _) fun name => .bind (.expect _) fun _ => ?_
    refine .bind (h.fewer hb .members (name.literal, [], [])) fun x => .bind (.expect _) fun _ => ?_
    exact .pure (some (Stmt.cls name.literal x.1 x.2 name.pos))
  case h_5 hkind =>
    exact .bind ((h.ahead hb .branch ()).mono (hat hkind (by decide))) fun b =>
      .pure (some (Stmt.branch b))
  case h_6 hkind =>
    refine .take hkind (by decide) fun _ => .bind expression_regular fun test => .bind hblock fun x => ?_
    exact .pure (some (Stmt.loop test x.1 x.2 token.pos))
  case h_7 hkind =>
    refine .take hkind (by decide) fun _ => .bind (.expect _) fun name => .bind (.expect _) fun _ => ?_
    refine .bind expression_regular fun collection => .bind hblock fun x => ?_
    exact .pure (some (Stmt.forEach name.literal name.pos collection x.1 x.2 token.pos))
  · exact .bind .advance fun _ => .pure (some (Stmt.leave token.pos))
  · exact .bind returnStmt_regular.of_regular fun s => .pure (some s)
  · exact .bind .advance fun _ => .bind expression_regular fun value =>
      .pure (some (Stmt.print value token.pos))
  · exact simpleStmt_regular.of_regular

theorem functionRule_regular (hcond : ∀ s, cond s → s.advanced.Within b)
    (hblock : Regular b f (fun x => (Stmt.movedAll f x.1, f x.2)) block block') :
    RegularIf cond f (Func.moved f) (functionRule block) (functionRule block') := by
  refine .andThen .advance hcond fun _ => .bind (.expect _) fun name => .bind (.expect _) fun _ => ?_
  refine .bind params_regular fun params => .bind (.expect _) fun _ => .bind (.accept _) fun _ => ?_
  refine .ite (.bind (type_regular.map fun _ => rfl : Regular b f (Option.map (TypeExpr.moved f)) _ _) ?_)
    (.bind (.pure none : Regular b f (Option.map (TypeExpr.moved f)) _ _) ?_)
  all_goals
    intro result
    refine .bind hblock fun x => ?_
    exact .pure (Func.mk name.literal params result x.1 x.2 name.pos)

theorem membersRule_regular (h : stmtGrammar.Laws limit f p q) (hshort : limit ≠ none → Shortens p)
    (hb : State.Fits limit 5 1 b) (cls : Text) (fields : List Field) (methods : List Func) :
    Regular (wider b) f (fun x => (x.1.map (Field.moved f), Func.movedAll f x.2))
      (stmtRules true p .members (cls, fields, methods))
      (stmtRules true q .members (cls, fields.map (Field.moved f), Func.movedAll f methods)) := by
  have hmembers (fields : List Field) (methods : List Func) :
      Regular b f _ (p .members (cls, fields, methods))
        (q .members (cls, fields.map (Field.moved f), Func.movedAll f methods)) :=
    h.fewer hb .members (cls, fields, methods)
  refine .current_bind fun token => ?_
  simp only [Token.moved]
  split
  · exact .pure (fields, methods)
  · exact .pure (fields, methods)
  case h_3 hkind =>
    simp only [field, typedName, bind_assoc, pure_bind]
    refine .andThen (checkFieldFirst_regular cls methods).of_regular checkFieldFirst_at fun _ => ?_
    refine .expected hkind (by decide) fun name => .bind (.expect _) fun _ => .bind type_regular fun t => ?_
    have hmore := hmembers (fields ++ [⟨name.literal, t, name.pos⟩]) methods
    rwa [List.map_append] at hmore
  case h_4 hkind =>
    have hat (s : State) (hs : s.At (wider b) token) : s.Ahead (wider b) :=
      ⟨hs.1, by rw [hs.2, hkind]; decide⟩
    have hfunction := (h.ahead hb .function ()).mono hat
    have hwithin (s : State) (hs : s.At (wider b) token) : (p .function () s).2.Within b :=
      hs.1.of_shorter (hfunction.advances hs) fun m hm hlast =>
        (hshort (hb.limited m hm)).function s (State.ahead_ne_nil (hat s hs).2 hlast)
    refine .andThen hfunction hwithin fun next => ?_
    have hmore := hmembers fields (methods ++ [next])
    rwa [Func.movedAll_append] at hmore
  case h_5 hbrace heof _ _ =>
    refine .andThen (.unexpected _) (fun s hs => hs) fun _ => .take rfl heof fun _ => ?_
    exact .bind (.skipUntil _) fun _ => hmembers fields methods

theorem branchRule_regular (hcond : ∀ s, cond s → s.advanced.Within b)
    (hotherwise : Regular b f (Otherwise.moved f) otherwise otherwise')
    (hblock : Regular b f (fun x => (Stmt.movedAll f x.1, f x.2)) block block') :
    RegularIf cond f (Branch.moved f) (branchRule otherwise block) (branchRule otherwise' block') := by
  refine .andThen .advance hcond fun token => .bind expression_regular fun test => ?_
  refine .bind hblock fun x => .bind hotherwise fun otherwise => ?_
  exact .pure (Branch.mk test x.1 x.2 otherwise token.pos)

theorem otherwiseRule_regular (h : stmtGrammar.Laws limit f p q) (hb : State.Fits limit 5 0 b) :
    Regular (wider b) f (Otherwise.moved f) (stmtRules true p .otherwise ())
      (stmtRules true q .otherwise ()) := by
  refine .accept_bind (by decide) ?_ (.pure Otherwise.nothing)
  refine .bind (.at? _) fun _ => .ite ?_ ?_
  · exact .bind (h.fewer hb .branch ()) fun b => .pure (Otherwise.chain b)
  · exact .bind (h.fewer hb .block ()) fun x => .pure (Otherwise.block x.1 x.2)

theorem blockRule_regular (h : stmtGrammar.Laws limit f p q) (hb : State.Fits limit 5 3 b) :
    Regular (wider b) f (fun x => (Stmt.movedAll f x.1, f x.2)) (stmtRules true p .block ())
      (stmtRules true q .block ()) := by
  refine .bind (.expect _) fun opening => .bind (h.same hb .statements ()) fun body => ?_
  exact .bind (.expect _) fun _ => .pure (body, opening.pos)

theorem stmtRules_laws (guarded : Bool) (h : stmtGrammar.Laws limit f p q)
    (hshort : limit ≠ none → Shortens p) (hguard : guarded = false → limit ≠ none) :
    stmtGrammar.Laws (wider limit) f (stmtRules true p) (stmtRules guarded q)
  | .statement, _ => .of_enough rfl fun _ => statementRule_regular h
  | .function, _ => .of_enough_ahead
    (fun _ hb => functionRule_regular (fun s hs => hs.of_advances (Records.advanced s).advances)
      (h.same hb .block ()))
    fun _ hb => functionRule_regular (fun _ hs => hs.1.advanced hs.2) (h.fewer hb .block ())
  | .members, (cls, fields, methods) =>
    .of_enough rfl fun _ hb => membersRule_regular h hshort hb cls fields methods
  | .branch, _ => .of_enough_ahead
    (fun _ hb => branchRule_regular (fun s hs => hs.of_advances (Records.advanced s).advances)
      (h.same hb .otherwise ()) (h.same hb .block ()))
    fun _ hb => branchRule_regular (fun _ hs => hs.1.advanced hs.2) (h.fewer hb .otherwise ())
      (h.fewer hb .block ())
  | .otherwise, _ => .of_enough rfl fun _ => otherwiseRule_regular h
  | .block, _ => .of_enough rfl fun _ => blockRule_regular h
  | .statements, _ => .of_enough rfl fun b hb => by
    have hstatement := h.same hb .statement ()
    refine statementsRule_regular rfl (attemptIf_regular guarded hstatement (fun _ => .skipUntil _)
      fun hfree s hs => ?_) (fun s hs => attempt_within hstatement (.skipUntil _) hs.1 hs.2)
      (h.fewer hb .statements ())
    exact (hshort (hguard hfree)).statement s (hb.ahead_ne_nil (hguard hfree) hs)

end Laws

theorem stmtParsers_laws (fuel : Nat) :
    stmtGrammar.Laws none f (stmtParsers fuel) (stmtParsers fuel) := by
  induction fuel with
  | zero =>
    intro r
    cases r with
    | _ => exact fun _ => .exhausted (by exact fun _ => rfl)
  | succ fuel ih =>
    rw [stmtParsers_succ]
    exact stmtRules_laws true ih (absurd rfl) nofun

theorem statement_regular : Regular b f (Option.map (Stmt.moved f)) statement statement :=
  .of_fuel (8 * · + 8) fun n => stmtParsers_laws n .statement ()

theorem resume_regular : Regular b f id resume resume :=
  .bind (.skipUntil _) fun _ => .bind (.accept _) fun _ => .pure ()

abbrev programGrammar : Grammar := listGrammar Stmt.movedAll

/-- A list of statements up to the end of the source. -/
def programRules (guarded : Bool) (p : programGrammar.Parsers) : programGrammar.Parsers := fun _ _ =>
  statementsRule (p () ()) (· == .eof) (attemptIf guarded statement resume)

theorem programRules_laws {limit : Option Nat} (guarded : Bool) {p q : programGrammar.Parsers}
    (h : programGrammar.Laws limit f p q)
    (hshort : limit ≠ none → ∀ s, s.ahead ≠ [] → Takes statement s)
    (hguard : guarded = false → limit ≠ none) :
    programGrammar.Laws (wider limit) f (programRules true p) (programRules guarded q) := by
  refine fun () _ => .of_enough rfl fun b hb => statementsRule_regular rfl
    (attemptIf_regular guarded statement_regular (fun _ => resume_regular) fun hfree s hs => ?_)
    (fun s hs => attempt_within (f := f) statement_regular resume_regular hs.1 hs.2)
    (h.fewer hb () ())
  exact hshort (hguard hfree) s (hb.ahead_ne_nil (hguard hfree) hs)

theorem programParsers_laws (fuel : Nat) :
    programGrammar.Laws none f (fun _ _ => programWith fuel) (fun _ _ => programWith fuel) := by
  induction fuel with
  | zero => exact fun _ _ => .exhausted (by exact fun _ => rfl)
  | succ fuel ih => exact programRules_laws true ih (absurd rfl) nofun

theorem program_regular : Regular b f (Program.moved f) program program :=
  .of_fuel (· + 1) fun n => programParsers_laws n () ()

theorem parseTokens_eq (tokens : List Token) :
    parseTokens tokens =
      ⟨(program (State.ofTokens tokens)).1, (program (State.ofTokens tokens)).2.faults⟩ := rfl

/-- What parsing gave, with everything moved. -/
def Result.moved (f : Pos → Pos) (r : Result) : Result :=
  ⟨r.program.moved f, r.faults.map fun x => (x.1, f x.2)⟩

theorem Result.program_moved (f : Pos → Pos) (r : Result) :
    (r.moved f).program = r.program.moved f := rfl

theorem Result.faults_moved (f : Pos → Pos) (r : Result) :
    (r.moved f).faults = r.faults.map fun x => (x.1, f x.2) := rfl

/-- Without tokens the end of the source stands at its start, which then has to stay. -/
theorem ofTokens_moved (tokens : List Token) (h : tokens = [] → f .start = .start) :
    State.ofTokens (tokens.map (Token.moved f)) = (State.ofTokens tokens).moved f := by
  simp only [State.ofTokens, State.moved, List.map_dropLast, List.getLast?_map]
  cases hlast : tokens.getLast? with
  | none =>
    have hstart := h (List.getLast?_eq_none_iff.mp hlast)
    simp [Token.moved, hstart]
  | some last => rfl

/-- Parsing moved tokens gives the moved tree and the moved faults. -/
theorem parseTokens_moved (tokens : List Token) (h : tokens = [] → f .start = .start) :
    parseTokens (tokens.map (Token.moved f)) = (parseTokens tokens).moved f := by
  rw [parseTokens_eq, parseTokens_eq, ofTokens_moved tokens h,
    program_regular.moved _ (nofun : State.Within none _)]
  rfl

/-- Parsing tokens without positions gives the tree without positions, and as many faults. -/
theorem parseTokens_unplaced (tokens : List Token) :
    (parseTokens (tokens.map Token.unplaced)).program = (parseTokens tokens).program.unplaced ∧
      ((parseTokens (tokens.map Token.unplaced)).faults = [] ↔ (parseTokens tokens).faults = []) := by
  have hmoved := parseTokens_moved (f := fun _ => .start) tokens fun _ => rfl
  rw [show Token.moved (fun _ => .start) = Token.unplaced from rfl] at hmoved
  rw [hmoved]
  exact ⟨Stmt.movedAll_start _, List.map_eq_nil_iff⟩

end Statements

end PeakLang.Tree.Parser
