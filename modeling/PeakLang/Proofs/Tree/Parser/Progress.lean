import Mathlib.Logic.Function.Iterate
import PeakLang.Proofs.Tree.Parser.Reads

namespace PeakLang.Tree.Parser

variable {α β : Type} {s : State}

namespace Takes

theorem advance (hs : s.ahead ≠ []) : Takes advance s := State.length_advanced hs

theorem bind {p : Parse α} {k : α → Parse β} [hk : ∀ a, Forward (k a)] (h : Takes p s) :
    Takes (p >>= k) s :=
  Nat.lt_of_le_of_lt ((hk _).advances _).ahead.length_le h

theorem current_bind {k : Token → Parse β} : Takes (current >>= k) s ↔ Takes (k s.current) s := Iff.rfl

/-- A trial that is kept takes what it took on trial. -/
theorem speculate {p : Parse (Option α)} (h : Takes p { s with faults := [] })
    (hkept : (speculate p s).1 ≠ none) : Takes (speculate p) s := by
  unfold Takes at h ⊢
  rw [speculate_run] at hkept ⊢
  split at hkept
  · rename_i a after hrun
    rw [hrun] at h
    split at hkept
    case isTrue hempty =>
      simp only [hempty, if_true]
      exact h
    · exact absurd rfl hkept
  · exact absurd rfl hkept

end Takes

theorem takes_type (hkind : s.current.kind = .lbracket) (hs : s.ahead ≠ []) : Takes type s := by
  have hrule :
      Takes (typeRule (typeWith (2 * s.ahead.length + 1)) (typesWith (2 * s.ahead.length + 1))) s := by
    rw [typeRule, Takes.current_bind, hkind]
    exact (Takes.advance hs).bind
  unfold Takes
  rw [type, get_bind_run, typeWith]
  exact hrule

theorem takes_primaryWith (fuel : Nat) (hs : s.ahead ≠ []) : Takes (primaryWith (fuel + 1)) s := by
  have hadvance := Takes.advance hs
  rw [primaryWith, primaryRule, Takes.current_bind]
  split
  case h_9 hkind =>
    unfold Takes
    rw [bind_run]
    cases hempty : (emptyArray? s).1 with
    | none =>
      rw [emptyArray?_fails s hempty]
      exact hadvance.bind
    | some e =>
      have htype : Takes type { s with faults := [] } := takes_type hkind hs
      exact Takes.speculate htype.bind (hempty ▸ nofun)
  case h_10 =>
    have hahead : (unexpected s.current .expression s).2.ahead ≠ [] := hs
    have hfaulted : Takes (advance >>= fun _ => pure (Expr.name errorName s.current.pos)) _ :=
      (Takes.advance hahead).bind
    exact hfaulted
  all_goals exact hadvance.bind

theorem takes_accessWith (fuel : Nat) (hs : s.ahead ≠ []) : Takes (accessWith (fuel + 2)) s :=
  (takes_primaryWith fuel hs).bind

theorem takes_access (hs : s.ahead ≠ []) : Takes access s := by
  unfold Takes
  rw [access, get_bind_run, expressionFuel]
  exact takes_accessWith (8 * s.ahead.length + 6) hs

theorem takes_factorWith (fuel : Nat) (hs : s.ahead ≠ []) : Takes (factorWith (fuel + 3)) s := by
  rw [factorWith, factorRule, Takes.current_bind]
  split
  · exact (Takes.advance hs).bind
  · exact (takes_accessWith fuel hs).bind

theorem takes_expressionWith (fuel : Nat) (hs : s.ahead ≠ []) : Takes (expressionWith (fuel + 5)) s := by
  have hoperation : Takes (operationWith (fuel + 4) 1) s := (takes_factorWith fuel hs).bind
  exact hoperation.bind

theorem takes_expression (hs : s.ahead ≠ []) : Takes expression s := by
  unfold Takes
  rw [expression, get_bind_run, expressionFuel]
  exact takes_expressionWith (8 * s.ahead.length + 3) hs

set_option synthInstance.maxSize 512 in
theorem takes_functionWith (fuel : Nat) (hs : s.ahead ≠ []) : Takes (functionWith (fuel + 1)) s := by
  rw [functionWith, functionRule]
  dsimp only
  exact (Takes.advance hs).bind

theorem takes_statementWith (fuel : Nat) (hs : s.ahead ≠ []) : Takes (statementWith (fuel + 2)) s := by
  have hadvance := Takes.advance hs
  have hdeclaration (readOnly : Bool) : Takes (declaration readOnly) s := hadvance.bind
  have hbranch : Takes (branchWith (fuel + 1)) s := hadvance.bind
  have hreturn : Takes returnStmt s := hadvance.bind
  rw [statementWith, statementRule, Takes.current_bind]
  split
  · exact (hdeclaration false).bind
  · exact (hdeclaration true).bind
  · exact (takes_functionWith fuel hs).bind
  · exact hadvance.bind
  · exact hbranch.bind
  · exact hadvance.bind
  · exact hadvance.bind
  · exact hadvance.bind
  · exact hreturn.bind
  · exact hadvance.bind
  · exact .bind (k := simpleStmtFrom s.current.pos s.faults.length) (takes_access hs)

theorem takes_statement (hs : s.ahead ≠ []) : Takes statement s := by
  unfold Takes
  rw [statement, get_bind_run, statementFuel]
  exact takes_statementWith (8 * s.ahead.length + 6) hs

theorem State.moved_id (s : State) : s.moved id = s := by
  obtain ⟨ahead, last, faults⟩ := s
  simp only [State.moved, State.mk.injEq]
  exact ⟨List.map_id _, rfl, List.map_id _⟩

namespace RegularIf

variable {view : α → α} {p q q' : Parse α} {cond cond' : State → Prop}

/-- Parsers that stand for one another while nothing is moved give the same. -/
theorem eq_of_unmoved (h : RegularIf cond id view p q) (hself : RegularIf cond' id view p p) (hs : cond s)
    (hs' : cond' s) : q s = p s := by
  have hq := h.moved s hs
  have hp := hself.moved s hs'
  rw [State.moved_id] at hq hp
  exact hq.trans hp.symm

/-- A parser that gives the same may stand for another. -/
theorem of_eq (h : RegularIf cond' id view p q) (hcond : ∀ s, cond s → cond' s)
    (heq : ∀ s, cond s → q' s = q s) : RegularIf cond id view p q' where
  records s hs := h.records s (hcond s hs)
  moved s hs := by
    have hq := h.moved s (hcond s hs)
    rw [State.moved_id] at hq ⊢
    rw [heq s hs, hq]

end RegularIf

namespace Grammar

variable {G : Grammar} {n : Nat} {r : G.Rule}

theorem enough_none : G.Enough none r s := .inl nofun

theorem enough_of_lt (hlast : s.last.kind = .eof) (h : G.weight * s.ahead.length + G.rank r < n) :
    G.Enough (some n) r s := by
  refine .inl fun m hm => ?_
  cases hm
  exact ⟨hlast, h⟩

theorem lt_of_enough (h : G.Enough (some n) r s) :
    s.last.kind = .eof ∧ G.weight * s.ahead.length < n := by
  obtain h | h := h
  · exact (h n rfl).imp_right (Nat.lt_of_add_right_lt ·)
  · exact (h.1 n rfl).imp_right (Nat.lt_of_add_right_lt ·)

/-- Parsers for a grammar that unfold its rules as often as they have fuel. What the rules make of any
parsers is what they make of those that have fuel, where these have enough of it; `lag` calls more may be
needed for that. The rules may be guarded against running on without taking a token. -/
structure Unfolding (G : Grammar) where
  rules : (guarded : Bool) → G.Parsers → G.Parsers
  parsers : (fuel : Nat) → G.Parsers
  fuel : (tokens : Nat) → Nat
  top : Nat
  lag : Nat
  parsers_succ : ∀ n, parsers (n + 1) = rules true (parsers n)
  laws : ∀ n, G.Laws none id (parsers n) (parsers n)
  laws_succ : ∀ guarded {n m q}, G.Laws (some n) id (parsers (m + lag)) q →
    G.Laws (some (n + 1)) id (parsers (m + 1 + lag)) (rules guarded q)
  moveArg_id : ∀ r a, G.moveArg id r a = a
  rank_le : ∀ r, G.rank r ≤ top
  fuel_lt : ∀ n, G.weight * n + top + lag < fuel n

namespace Unfolding

variable (u : Unfolding G)

/-- The parsers with as much fuel as the tokens ahead call for. -/
def whole : G.Parsers := fun r a => do u.parsers (u.fuel (← get).ahead.length) r a

variable {m : Nat} {q : G.Parsers}

theorem apply_eq (h : G.Laws (some n) id (u.parsers m) q) (hlast : s.last.kind = .eof)
    (hn : G.weight * s.ahead.length + u.top < n) (r : G.Rule) (a : G.Arg r) :
    q r a s = u.parsers m r a s := by
  have hrank := u.rank_le r
  have hq := h r a
  have hself := u.laws m r a
  rw [u.moveArg_id] at hq hself
  exact hq.eq_of_unmoved hself (enough_of_lt hlast (by omega)) enough_none

theorem iterate_apply (guarded : Bool) (hlast : s.last.kind = .eof)
    (hn : G.weight * s.ahead.length + u.top < n) (other : G.Parsers) (r : G.Rule) (a : G.Arg r) :
    (u.rules guarded)^[n] other r a s = u.parsers (n + u.lag) r a s := by
  have hlaws : G.Laws (some n) id (u.parsers (n + u.lag)) ((u.rules guarded)^[n] other) := by
    clear hn
    induction n with
    | zero => exact fun r a => ⟨fun s hs => absurd (lt_of_enough hs).2 (Nat.not_lt_zero _),
        fun s hs => absurd (lt_of_enough hs).2 (Nat.not_lt_zero _)⟩
    | succ n ih =>
      rw [Function.iterate_succ_apply']
      exact u.laws_succ guarded ih
  exact u.apply_eq hlaws hlast hn r a

theorem iterate_parsers (n m : Nat) : (u.rules true)^[n] (u.parsers m) = u.parsers (n + m) := by
  induction n with
  | zero => rw [Nat.zero_add, Function.iterate_zero_apply]
  | succ n ih => rw [Function.iterate_succ_apply', ih, ← u.parsers_succ, Nat.add_right_comm]

/-- As it does not matter from what the rules are unfolded, it does not matter how often. -/
theorem parsers_apply (hlast : s.last.kind = .eof) (hn : G.weight * s.ahead.length + u.top + u.lag < n)
    (r : G.Rule) (a : G.Arg r) : u.parsers n r a s = u.whole r a s := by
  have hleast {n : Nat} (hn : G.weight * s.ahead.length + u.top + u.lag < n) :
      u.parsers n r a s = u.parsers (G.weight * s.ahead.length + u.top + 1 + u.lag) r a s := by
    obtain ⟨m, rfl⟩ : ∃ m, n = G.weight * s.ahead.length + u.top + 1 + m :=
      ⟨n - (G.weight * s.ahead.length + u.top + 1), by omega⟩
    rw [← u.iterate_parsers]
    exact u.iterate_apply true hlast (Nat.lt_succ_self _) _ r a
  rw [whole, get_bind_run, hleast hn, hleast (u.fuel_lt _)]

theorem laws_whole (n : Nat) : G.Laws (some n) id (u.parsers (n + u.top + u.lag)) u.whole := by
  intro r a
  refine .of_eq (u.laws _ r a) (fun _ _ => enough_none) fun s hs => ?_
  obtain ⟨hlast, hlt⟩ := lt_of_enough hs
  exact (u.parsers_apply hlast (by omega) r _).symm

/-- The parsers obey their rules. -/
theorem whole_apply (hlast : s.last.kind = .eof) (r : G.Rule) (a : G.Arg r) :
    u.whole r a s = u.rules true u.whole r a s := by
  have hlaws := u.laws_succ true (u.laws_whole (G.weight * s.ahead.length + u.top))
  rw [u.apply_eq hlaws hlast (Nat.lt_succ_self _)]
  exact (u.parsers_apply hlast (by omega) r a).symm

/-- The rules, unfolded often enough from anything, give what the parsers give. -/
theorem iterate_eq_whole (guarded : Bool) (hlast : s.last.kind = .eof)
    (hn : G.weight * s.ahead.length + u.top < n) (other : G.Parsers) (r : G.Rule) (a : G.Arg r) :
    (u.rules guarded)^[n] other r a s = u.whole r a s := by
  rw [u.iterate_apply guarded hlast hn]
  exact u.parsers_apply hlast (by omega) r a

end Unfolding

end Grammar

section Types

def typeUnfolding : typeGrammar.Unfolding where
  rules _ := typeRules
  parsers := typeParsers
  fuel n := 2 * n + 2
  top := 1
  lag := 0
  parsers_succ := typeParsers_succ
  laws := typeParsers_laws
  laws_succ _ {_ m _} h := typeParsers_succ m ▸ typeRules_laws h
  moveArg_id _ _ := rfl
  rank_le r := by cases r <;> decide
  fuel_lt n := by
    change 2 * n + 1 + 0 < 2 * n + 2
    omega

/-- Types with commas between them. -/
def types : Parse (List TypeExpr) := do typesWith (2 * (← get).ahead.length + 2)

instance : Forward types := inferInstanceAs (Forward (get >>= _))

theorem type_eq (hlast : s.last.kind = .eof) : type s = typeRule type types s :=
  typeUnfolding.whole_apply hlast .type ()

theorem types_eq (hlast : s.last.kind = .eof) : types s = separated type types s :=
  typeUnfolding.whole_apply hlast .types ()

end Types

section Expressions

def exprUnfolding : exprGrammar.Unfolding where
  rules _ := exprRules
  parsers := exprParsers
  fuel n := 8 * n + 8
  top := 5
  lag := 0
  parsers_succ := exprParsers_succ
  laws := exprParsers_laws
  laws_succ _ {_ m _} h := exprParsers_succ m ▸ exprRules_laws h
  moveArg_id r a := by
    cases r with
    | operations => exact congrArg (fun left => (a.1, a.2.1, left)) a.2.2.moved_id
    | accesses => exact Expr.moved_id a
    | _ => rfl
  rank_le r := by cases r <;> decide
  fuel_lt n := by
    change 6 * n + 5 + 0 < 8 * n + 8
    omega

def operation (level : Nat) : Parse Expr := do operationWith (expressionFuel (← get)) level

def operations (level : Nat) (compared : Bool) (left : Expr) : Parse Expr := do
  operationsWith (expressionFuel (← get)) level compared left

def factor : Parse Expr := do factorWith (expressionFuel (← get))

def accesses (object : Expr) : Parse Expr := do accessesWith (expressionFuel (← get)) object

def primary : Parse Expr := do primaryWith (expressionFuel (← get))

def expressions : Parse (List Expr) := do expressionsWith (expressionFuel (← get))

variable (hlast : s.last.kind = .eof)
include hlast

theorem expression_eq : expression s = expressionRule expression operation s :=
  exprUnfolding.whole_apply hlast .expression ()

theorem operation_eq (level : Nat) : operation level s = operationRule factor operations level s :=
  exprUnfolding.whole_apply hlast .operation level

theorem operations_eq (level : Nat) (compared : Bool) (left : Expr) :
    operations level compared left s = operationsRule operation operations level compared left s :=
  exprUnfolding.whole_apply hlast .operations (level, compared, left)

theorem factor_eq : factor s = factorRule factor access s := exprUnfolding.whole_apply hlast .factor ()

theorem access_eq : access s = accessRule primary accesses s :=
  exprUnfolding.whole_apply hlast .access ()

theorem accesses_eq (object : Expr) :
    accesses object s = accessesRule expression expressions accesses object s :=
  exprUnfolding.whole_apply hlast .accesses object

theorem primary_eq : primary s = primaryRule expression expressions s :=
  exprUnfolding.whole_apply hlast .primary ()

theorem expressions_eq : expressions s = separated expression expressions s :=
  exprUnfolding.whole_apply hlast .expressions ()

end Expressions

section Params

def paramUnfolding : paramGrammar.Unfolding where
  rules _ := paramRules
  parsers n _ _ := paramsWith n
  fuel n := n + 1
  top := 0
  lag := 0
  parsers_succ _ := rfl
  laws := paramParsers_laws
  laws_succ _ {_ _ _} h := paramRules_laws h
  moveArg_id _ _ := rfl
  rank_le _ := Nat.le_refl 0
  fuel_lt n := by
    change 1 * n + 0 + 0 < n + 1
    omega

def someParams : Parse (List Param) := do paramsWith ((← get).ahead.length + 1)

theorem someParams_eq (hlast : s.last.kind = .eof) : someParams s = separated param someParams s :=
  paramUnfolding.whole_apply hlast () ()

end Params

section Statements

theorem shortens (fuel : Nat) : Shortens (stmtParsers (fuel + 2)) :=
  ⟨fun _ => takes_statementWith fuel, fun _ => takes_functionWith (fuel + 1)⟩

/-- Two calls deep a statement takes a token, so that the rules need no guard. -/
def stmtUnfolding : stmtGrammar.Unfolding where
  rules := stmtRules
  parsers := stmtParsers
  fuel n := 8 * n + 8
  top := 4
  lag := 2
  parsers_succ := stmtParsers_succ
  laws := stmtParsers_laws
  laws_succ guarded {_ m _} h :=
    stmtParsers_succ (m + 2) ▸ stmtRules_laws guarded h (fun _ => shortens m) fun _ => nofun
  moveArg_id r a := by
    cases r with
    | members =>
      obtain ⟨cls, fields, methods⟩ := a
      change (cls, fields.map (Field.moved id), Func.movedAll id methods) = _
      rw [Field.moved_id, List.map_id, Func.movedAll_id]
    | _ => rfl
  rank_le r := by cases r <;> decide
  fuel_lt n := by
    change 5 * n + 4 + 2 < 8 * n + 8
    omega

def function : Parse Func := do functionWith (statementFuel (← get))

def members (cls : Text) (fields : List Field) (methods : List Func) :
    Parse (List Field × List Func) := do
  membersWith (statementFuel (← get)) cls fields methods

def branch : Parse Branch := do branchWith (statementFuel (← get))

def otherwise : Parse Otherwise := do otherwiseWith (statementFuel (← get))

def block : Parse (List Stmt × Pos) := do blockWith (statementFuel (← get))

def statements : Parse (List Stmt) := do statementsWith (statementFuel (← get))

instance : Forward function := inferInstanceAs (Forward (get >>= _))

instance (cls : Text) (fields : List Field) (methods : List Func) :
    Forward (members cls fields methods) := inferInstanceAs (Forward (get >>= _))

instance : Forward branch := inferInstanceAs (Forward (get >>= _))

instance : Forward otherwise := inferInstanceAs (Forward (get >>= _))

instance : Forward block := inferInstanceAs (Forward (get >>= _))

instance : Forward statements := inferInstanceAs (Forward (get >>= _))

variable (hlast : s.last.kind = .eof)
include hlast

theorem statement_eq : statement s = statementRule function branch block members s :=
  stmtUnfolding.whole_apply hlast .statement ()

theorem function_eq : function s = functionRule block s := stmtUnfolding.whole_apply hlast .function ()

theorem members_eq (cls : Text) (fields : List Field) (methods : List Func) :
    members cls fields methods s = membersRule function members cls fields methods s :=
  stmtUnfolding.whole_apply hlast .members (cls, fields, methods)

theorem branch_eq : branch s = branchRule otherwise block s :=
  stmtUnfolding.whole_apply hlast .branch ()

theorem otherwise_eq : otherwise s = otherwiseRule branch block s :=
  stmtUnfolding.whole_apply hlast .otherwise ()

theorem block_eq : block s = blockRule statements s := stmtUnfolding.whole_apply hlast .block ()

theorem statements_eq :
    statements s = statementsRule statements closesBlock (attempt statement synchronize) s :=
  stmtUnfolding.whole_apply hlast .statements ()

end Statements

section Programs

def programUnfolding : programGrammar.Unfolding where
  rules := programRules
  parsers n _ _ := programWith n
  fuel n := n + 1
  top := 0
  lag := 0
  parsers_succ _ := rfl
  laws := programParsers_laws
  laws_succ guarded {_ _ _} h := programRules_laws guarded h (fun _ _ => takes_statement) fun _ => nofun
  moveArg_id _ _ := rfl
  rank_le _ := Nat.le_refl 0
  fuel_lt n := by
    change 1 * n + 0 + 0 < n + 1
    omega

instance : Forward program := inferInstanceAs (Forward (get >>= _))

theorem program_eq (hlast : s.last.kind = .eof) :
    program s = statementsRule program (· == .eof) (attempt statement resume) s :=
  programUnfolding.whole_apply hlast () ()

end Programs

/-- No parser goes back or beyond the end of the source. -/
structure GoForward : Prop where
  steps : Forward advance ∧ (∀ k, Forward (expect k) ∧ Forward (accept k)) ∧
    (∀ stop, Forward (skipUntil stop)) ∧ (∀ t, Forward (optionals t)) ∧ Forward emptyArray? ∧
    (∀ b, Forward (declaration b)) ∧ Forward returnStmt ∧ Forward simpleStmt ∧ Forward params ∧
    Forward synchronize ∧ Forward resume ∧ Forward program
  types : ∀ fuel r a, Forward (typeParsers fuel r a)
  expressions : ∀ fuel r a, Forward (exprParsers fuel r a)
  statements : ∀ fuel r a, Forward (stmtParsers fuel r a)

theorem goForward : GoForward where
  steps := ⟨inferInstance, fun _ => ⟨inferInstance, inferInstance⟩, inferInstance, inferInstance,
    inferInstance, inferInstance, inferInstance, inferInstance, inferInstance, inferInstance,
    inferInstance, inferInstance⟩
  types fuel r a := .of_laws (typeParsers_laws fuel r a)
  expressions fuel r a := .of_laws (exprParsers_laws fuel r a)
  statements fuel r a := .of_laws (stmtParsers_laws fuel r a)

/-- The rules, unfolded `n` times from anything, with or without the guards of lists of statements, give
what the parsers give. -/
structure Settled (s : State) (guarded : Bool) (n : Nat) : Prop where
  types : ∀ other r a, typeRules^[n] other r a s = typeUnfolding.whole r a s
  expressions : ∀ other r a, exprRules^[n] other r a s = exprUnfolding.whole r a s
  params : ∀ other r a, paramRules^[n] other r a s = paramUnfolding.whole r a s
  statements : ∀ other r a, (stmtRules guarded)^[n] other r a s = stmtUnfolding.whole r a s
  program : ∀ other r a, (programRules guarded)^[n] other r a s = program s

theorem settled {n : Nat} (guarded : Bool) (hlast : s.last.kind = .eof)
    (hn : 8 * s.ahead.length + 8 ≤ n) : Settled s guarded n where
  types := typeUnfolding.iterate_eq_whole guarded hlast (by change 2 * s.ahead.length + 1 < n; omega)
  expressions := exprUnfolding.iterate_eq_whole guarded hlast (by change 6 * s.ahead.length + 5 < n; omega)
  params := paramUnfolding.iterate_eq_whole guarded hlast (by change 1 * s.ahead.length + 0 < n; omega)
  statements := stmtUnfolding.iterate_eq_whole guarded hlast (by change 5 * s.ahead.length + 4 < n; omega)
  program := programUnfolding.iterate_eq_whole guarded hlast (by change 1 * s.ahead.length + 0 < n; omega)

/-- Before the end of the source, a statement, an expression and an operand take a token. No parser goes
back. A trial records no fault, and none that failed leaves a trace. Hence the loops of the rules end on
all tokens, and the guards are not what ends them. -/
theorem parsing_progresses :
    (∀ s : State, s.ahead ≠ [] → Takes statement s ∧ Takes expression s ∧ Takes access s) ∧
    GoForward ∧
    (∀ (α : Type) (p : Parse (Option α)) (s : State),
      (speculate p s).2.faults = s.faults ∧ ((speculate p s).1 = none → (speculate p s).2 = s)) ∧
    ∀ (s : State) (guarded : Bool) (n : Nat), s.last.kind = .eof → 8 * s.ahead.length + 8 ≤ n →
      Settled s guarded n :=
  ⟨fun _ hs => ⟨takes_statement hs, takes_expression hs, takes_access hs⟩, goForward,
    fun _ p s => ⟨faults_speculate p s, speculate_fails⟩,
    fun _ guarded _ hlast hn => settled guarded hlast hn⟩

end PeakLang.Tree.Parser
