import PeakLang.Proofs.Tree.Parser.Grammar

namespace PeakLang.Tree.Parser

variable {α β : Type} {s s' : State}

/-- A parser reads something: it records no fault. -/
def Reads (p : Parse α) (s : State) (a : α) (s' : State) : Prop :=
  @Eq (α × State) (p s) (a, s') ∧ s'.faults = s.faults

theorem reads_of_faults {p : Parse α} (h : (p s).2.faults = s.faults) : Reads p s (p s).1 (p s).2 :=
  ⟨rfl, h⟩

/-- The parsers that only go forward. -/
class Forward (p : Parse α) : Prop where
  advances : ∀ s, Advances s (p s).2

namespace Forward

theorem of_regular {view : α → β} {p : Parse α} {q : Parse β} (h : Regular none id view p q) :
    Forward p := ⟨fun _ => h.advances nofun⟩

theorem of_laws {G : Grammar} {r : G.Rule} {view : α → β} {p : Parse α} {q : Parse β}
    (h : RegularIf (G.Enough none r) id view p q) : Forward p :=
  ⟨fun _ => h.advances (.inl nofun)⟩

instance (a : α) : Forward (pure a : Parse α) := ⟨fun s => .refl s⟩

instance (p : Parse α) (k : α → Parse β) [hp : Forward p] [hk : ∀ a, Forward (k a)] :
    Forward (p >>= k) :=
  ⟨fun s => (hp.advances s).trans ((hk (p s).1).advances (p s).2)⟩

instance (c : Prop) [Decidable c] (p q : Parse α) [hp : Forward p] [hq : Forward q] :
    Forward (if c then p else q) := by
  by_cases hc : c
  · simpa only [if_pos hc] using hp
  · simpa only [if_neg hc] using hq

instance (f : α → β) (p : Parse α) [hp : Forward p] : Forward (f <$> p) := ⟨hp.advances⟩

instance : Forward (get : Parse State) := of_regular .get
instance : Forward current := of_regular .current
instance : Forward kind := of_regular .kind
instance (k : TokenKind) : Forward (at? k) := of_regular (.at? k)
instance : Forward advance := of_regular .advance
instance (f : Fault) (pos : Pos) : Forward (fault f pos) :=
  ⟨fun _ => ⟨List.suffix_refl _, rfl, List.prefix_append _ _⟩⟩
instance (t : Token) (want : Want) : Forward (unexpected t want) := inferInstanceAs (Forward (fault _ _))
instance (k : TokenKind) : Forward (expect k) := of_regular (.expect k)
instance (k : TokenKind) : Forward (accept k) := of_regular (.accept k)
instance : Forward faultCount := of_regular .faultCount
instance (stop : TokenKind → Bool) : Forward (skipUntil stop) := of_regular (.skipUntil stop)
instance : Forward synchronize := of_regular (.skipUntil _)
instance (t : TypeExpr) : Forward (optionals t) := of_regular (optionals_regular t)
instance (fuel : Nat) : Forward (typeWith fuel) := of_laws (typeParsers_laws fuel .type ())
instance (fuel : Nat) : Forward (typesWith fuel) := of_laws (typeParsers_laws fuel .types ())
instance : Forward type := of_regular type_regular
instance : Forward emptyArray? := of_regular emptyArray?_regular
instance (fuel : Nat) : Forward (expressionWith fuel) := of_laws (exprParsers_laws fuel .expression ())
instance (fuel level : Nat) : Forward (operationWith fuel level) :=
  of_laws (exprParsers_laws fuel .operation level)
instance (fuel level : Nat) (compared : Bool) (left : Expr) :
    Forward (operationsWith fuel level compared left) :=
  of_laws (exprParsers_laws fuel .operations (level, compared, left))
instance (fuel : Nat) : Forward (factorWith fuel) := of_laws (exprParsers_laws fuel .factor ())
instance (fuel : Nat) : Forward (accessWith fuel) := of_laws (exprParsers_laws fuel .access ())
instance (fuel : Nat) (object : Expr) : Forward (accessesWith fuel object) :=
  of_laws (exprParsers_laws fuel .accesses object)
instance (fuel : Nat) : Forward (primaryWith fuel) := of_laws (exprParsers_laws fuel .primary ())
instance (fuel : Nat) : Forward (expressionsWith fuel) :=
  of_laws (exprParsers_laws fuel .expressions ())
instance : Forward expression := of_regular expression_regular
instance : Forward access := of_regular access_regular
instance : Forward typedName := of_regular typedName_regular
instance : Forward param := of_regular param_regular
instance : Forward field := of_regular field_regular
instance (fuel : Nat) : Forward (paramsWith fuel) := of_laws (paramParsers_laws fuel () ())
instance : Forward params := of_regular params_regular
instance (readOnly : Bool) : Forward (declaration readOnly) := of_regular (declaration_regular readOnly)
instance : Forward returnStmt := of_regular returnStmt_regular
instance (pos : Pos) (before : Nat) (target : Expr) : Forward (simpleStmtFrom pos before target) :=
  of_regular (simpleStmtFrom_regular pos before target)
instance : Forward simpleStmt := of_regular simpleStmt_regular
instance (cls : Text) (methods : List Func) : Forward (checkFieldFirst cls methods) :=
  of_regular (checkFieldFirst_regular cls methods)
instance (fuel : Nat) : Forward (statementWith fuel) := of_laws (stmtParsers_laws fuel .statement ())
instance (fuel : Nat) : Forward (functionWith fuel) := of_laws (stmtParsers_laws fuel .function ())
instance (fuel : Nat) (cls : Text) (fields : List Field) (methods : List Func) :
    Forward (membersWith fuel cls fields methods) :=
  of_laws (stmtParsers_laws fuel .members (cls, fields, methods))
instance (fuel : Nat) : Forward (branchWith fuel) := of_laws (stmtParsers_laws fuel .branch ())
instance (fuel : Nat) : Forward (otherwiseWith fuel) := of_laws (stmtParsers_laws fuel .otherwise ())
instance (fuel : Nat) : Forward (blockWith fuel) := of_laws (stmtParsers_laws fuel .block ())
instance (fuel : Nat) : Forward (statementsWith fuel) := of_laws (stmtParsers_laws fuel .statements ())
instance : Forward statement := of_regular statement_regular
instance : Forward resume := of_regular resume_regular
instance (statement : Parse (Option Stmt)) (recover : Parse Unit) [Forward statement]
    [Forward recover] : Forward (recovered statement recover) := by
  unfold recovered
  infer_instance
instance (statement : Parse (Option Stmt)) (recover : Parse Unit) [Forward statement]
    [Forward recover] : Forward (attempt statement recover) := by
  unfold attempt
  infer_instance
instance (fuel : Nat) : Forward (programWith fuel) := of_laws (programParsers_laws fuel () ())

end Forward

theorem reads_pure {a b : α} : Reads (pure a) s b s' ↔ a = b ∧ s = s' := by
  simp only [Reads, pure_run, Prod.mk.injEq]
  constructor
  · exact fun h => h.1
  · rintro ⟨rfl, rfl⟩
    exact ⟨⟨rfl, rfl⟩, rfl⟩

theorem reads_current {t : Token} : Reads current s t s' ↔ s.current = t ∧ s = s' := reads_pure

variable {b : β}

theorem reads_current_bind {k : Token → Parse β} :
    Reads (current >>= k) s b s' ↔ Reads (k s.current) s b s' := Iff.rfl

theorem reads_get_bind {k : State → Parse β} :
    Reads (get >>= k) s b s' ↔ Reads (k s) s b s' := Iff.rfl

theorem reads_pure_bind {a : α} {k : α → Parse β} :
    Reads (pure a >>= k) s b s' ↔ Reads (k a) s b s' := Iff.rfl

theorem reads_advance_bind {k : Token → Parse β} :
    Reads (advance >>= k) s b s' ↔ Reads (k s.current) s.advanced b s' := Iff.rfl

theorem reads_kind_bind {k : TokenKind → Parse β} :
    Reads (kind >>= k) s b s' ↔ Reads (k s.current.kind) s b s' := Iff.rfl

theorem reads_at?_bind {kind : TokenKind} {k : Bool → Parse β} :
    Reads (at? kind >>= k) s b s' ↔ Reads (k (s.current.kind == kind)) s b s' := Iff.rfl

theorem reads_faultCount_bind {k : Nat → Parse β} :
    Reads (faultCount >>= k) s b s' ↔ Reads (k s.faults.length) s b s' := Iff.rfl

theorem reads_advance {t : Token} : Reads advance s t s' ↔ s.current = t ∧ s.advanced = s' := by
  simp only [Reads, advance_run, Prod.mk.injEq]
  constructor
  · exact fun h => h.1
  · rintro ⟨rfl, rfl⟩
    exact ⟨⟨rfl, rfl⟩, rfl⟩

theorem not_reads_fault {f : Fault} {pos : Pos} {u : Unit} : ¬ Reads (fault f pos) s u s' := by
  rintro ⟨hrun, hfaults⟩
  cases hrun
  simp at hfaults

theorem not_reads_unexpected {t : Token} {want : Want} {u : Unit} :
    ¬ Reads (unexpected t want) s u s' := not_reads_fault

theorem reads_ite {c : Prop} [Decidable c] {p q : Parse α} {a : α} :
    Reads (if c then p else q) s a s' ↔ (c ∧ Reads p s a s') ∨ (¬c ∧ Reads q s a s') := by
  by_cases hc : c <;> simp [hc]

/-- Two steps record no fault together if neither does: no step takes a fault back. -/
theorem reads_bind {p : Parse α} {k : α → Parse β} [hp : Forward p] [hk : ∀ a, Forward (k a)] :
    Reads (p >>= k) s b s' ↔ ∃ a t, Reads p s a t ∧ Reads (k a) t b s' := by
  constructor
  · rintro ⟨hrun, hfaults⟩
    rw [bind_run] at hrun
    have hfirst := (hp.advances s).faults
    have hsecond := ((hk (p s).1).advances (p s).2).faults
    rw [hrun] at hsecond
    have hsame : (p s).2.faults = s.faults :=
      (hfaults ▸ hsecond).eq_of_length_le hfirst.length_le
    exact ⟨(p s).1, (p s).2, ⟨rfl, hsame⟩, hrun, hfaults.trans hsame.symm⟩
  · rintro ⟨a, t, ⟨hp, hfirst⟩, hk, hsecond⟩
    refine ⟨?_, hsecond.trans hfirst⟩
    rw [bind_run, hp]
    exact hk

theorem not_reads_exhausted {tree : Pos → α} {a : α} : ¬ Reads (exhausted tree) s a s' := by
  simp only [exhausted, reads_bind, not_reads_unexpected, false_and, and_false, exists_false,
    not_false_eq_true]

/-- A step that keeps the faults as they are can be split off, whatever follows it. -/
theorem reads_bind_of_faults_eq {p : Parse α} {k : α → Parse β} (hp : (p s).2.faults = s.faults)
    (h : Reads (p >>= k) s b s') :
    ∃ a t, Reads p s a t ∧ Reads (k a) t b s' :=
  ⟨(p s).1, (p s).2, ⟨rfl, hp⟩, h.1, h.2.trans hp.symm⟩

theorem reads_expect {k : TokenKind} {t : Token} :
    Reads (expect k) s t s' ↔ s.current.kind = k ∧ s.current = t ∧ s.advanced = s' := by
  rw [expect, reads_bind]
  simp only [reads_current, reads_ite, beq_iff_eq, reads_bind, reads_advance, not_reads_unexpected,
    false_and, exists_false, and_false, or_false]
  constructor
  · rintro ⟨_, _, ⟨rfl, rfl⟩, hkind, h⟩
    exact ⟨hkind, h⟩
  · rintro ⟨hkind, h⟩
    exact ⟨_, _, ⟨rfl, rfl⟩, hkind, h⟩

theorem reads_expect_bind {k : TokenKind} {f : Token → Parse β} [∀ t, Forward (f t)] :
    Reads (expect k >>= f) s b s' ↔ s.current.kind = k ∧ Reads (f s.current) s.advanced b s' := by
  rw [reads_bind]
  simp only [reads_expect]
  constructor
  · rintro ⟨_, _, ⟨hkind, rfl, rfl⟩, h⟩
    exact ⟨hkind, h⟩
  · rintro ⟨hkind, h⟩
    exact ⟨_, _, ⟨hkind, rfl, rfl⟩, h⟩

theorem reads_accept_bind {k : TokenKind} {f : Bool → Parse β} :
    Reads (accept k >>= f) s b s' ↔
      (s.current.kind = k ∧ Reads (f true) s.advanced b s') ∨
        (s.current.kind ≠ k ∧ Reads (f false) s b s') := by
  rw [Reads, bind_run, accept_run]
  by_cases hkind : s.current.kind = k
  · simp [hkind, Reads, State.advanced]
  · simp [hkind, Reads]

theorem reads_bind_pair {α β γ : Type} {p : Parse (α × β)} {k : α × β → Parse γ} [Forward p]
    [hk : ∀ a b, Forward (k (a, b))] {c : γ} :
    Reads (p >>= k) s c s' ↔ ∃ a b t, Reads p s (a, b) t ∧ Reads (k (a, b)) t c s' := by
  have : ∀ x, Forward (k x) := fun x => hk x.1 x.2
  rw [reads_bind]
  exact ⟨fun ⟨x, t, h⟩ => ⟨x.1, x.2, t, h⟩, fun ⟨a, b, t, h⟩ => ⟨(a, b), t, h⟩⟩

theorem reads_map {α β : Type} {p : Parse α} {f : α → β} {b : β} :
    Reads (f <$> p) s b s' ↔ ∃ a, Reads p s a s' ∧ f a = b := by
  change @Eq (β × State) (f (p s).1, (p s).2) (b, s') ∧ _ ↔ _
  rw [Prod.mk.injEq]
  constructor
  · rintro ⟨⟨hf, rfl⟩, hfaults⟩
    exact ⟨_, ⟨rfl, hfaults⟩, hf⟩
  · rintro ⟨a, ⟨hp, hfaults⟩, rfl⟩
    rw [hp]
    exact ⟨⟨rfl, rfl⟩, hfaults⟩

section Loops

variable {statement : Parse (Option Stmt)} {recover : Parse Unit} {first more : Parse (List Stmt)}
  {closes : TokenKind → Bool} {body : List Stmt}

theorem reads_recovered [Forward statement] [Forward recover] :
    Reads (recovered statement recover) s body s' ↔
      ∃ first, Reads statement s first s' ∧ body = first.toList := by
  rw [recovered, reads_faultCount_bind, reads_bind (p := statement)]
  simp only [reads_faultCount_bind]
  constructor
  · rintro ⟨first, t, hfirst, h⟩
    rw [if_neg (by rw [hfirst.2]; exact Nat.lt_irrefl _)] at h
    obtain ⟨rfl, rfl⟩ := reads_pure.mp h
    exact ⟨first, hfirst, rfl⟩
  · rintro ⟨first, hfirst, rfl⟩
    refine ⟨first, s', hfirst, ?_⟩
    rw [if_neg (by rw [hfirst.2]; exact Nat.lt_irrefl _)]
    exact reads_pure.mpr ⟨rfl, rfl⟩

/-- A statement that takes tokens is kept as it is. -/
theorem reads_attempt_of_shorter [Forward statement] [Forward recover] {t : State} {body' : List Stmt}
    (hfirst : Reads (recovered statement recover) s body t)
    (hshorter : t.ahead.length < s.ahead.length) :
    Reads (attempt statement recover) s body' s' ↔ body' = body ∧ s' = t := by
  have hrun : attempt statement recover s = (body, t) := by
    rw [attempt_run, hfirst.1, if_neg (Nat.ne_of_lt hshorter)]
  rw [Reads, hrun]
  constructor
  · rintro ⟨⟨⟩, -⟩
    exact ⟨rfl, rfl⟩
  · rintro ⟨rfl, rfl⟩
    exact ⟨rfl, hfirst.2⟩

theorem reads_attempt [Forward statement] [Forward recover]
    (h : Reads (attempt statement recover) s body s') :
    ∃ first t, Reads statement s first t ∧
      (t.ahead.length < s.ahead.length → body = first.toList ∧ s' = t) := by
  have hsplit := h
  rw [attempt, reads_get_bind, reads_bind (p := recovered statement recover)] at hsplit
  obtain ⟨_, t, hrecovered, -⟩ := hsplit
  obtain ⟨first, hfirst, rfl⟩ := reads_recovered.mp hrecovered
  exact ⟨first, t, hfirst, fun hshorter => (reads_attempt_of_shorter hrecovered hshorter).mp h⟩

theorem reads_statementsRule [Forward first] [Forward more] :
    Reads (statementsRule more closes first) s body s' ↔
      (closes s.current.kind = true ∧ body = [] ∧ s' = s) ∨
        (closes s.current.kind = false ∧
          ∃ xs t, Reads first s xs t ∧ ∃ rest, body = xs ++ rest ∧ Reads more t rest s') := by
  rw [statementsRule, reads_kind_bind]
  cases closes s.current.kind with
  | true => simp [reads_pure, eq_comm]
  | false => simp [reads_bind, reads_map, and_comm, eq_comm]

end Loops

end PeakLang.Tree.Parser
