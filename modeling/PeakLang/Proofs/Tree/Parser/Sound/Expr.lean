import PeakLang.Proofs.Tree.Grammar
import PeakLang.Proofs.Tree.Legible
import PeakLang.Proofs.Tree.Parser.Reads

namespace PeakLang.Tree.Parser

/-- A state before tokens of a source. -/
structure State.Ready (s : State) : Prop where
  last : s.last.kind = .eof
  tokens : ∀ t ∈ s.ahead, t.kind ≠ .eof ∧ t.Lexical

/-- The tokens that were taken between two states. -/
def Taken (s : State) (ws : List Token) (s' : State) : Prop := s.ahead = ws ++ s'.ahead

variable {s₀ s s₁ s' : State} {ws ws' : List Token}

namespace Taken

theorem refl (s : State) : Taken s [] s := rfl

theorem trans (h : Taken s ws s₁) (h' : Taken s₁ ws' s') : Taken s (ws ++ ws') s' := by
  rw [Taken, h, h', List.append_assoc]

/-- The first of the tokens that were taken is the one that was at hand. -/
theorem eq_cons (h : Taken s ws s') (hne : ws ≠ []) : ∃ rest, ws = s.current :: rest := by
  cases ws with
  | nil => exact absurd rfl hne
  | cons t rest =>
    have heq : s.ahead = t :: (rest ++ s'.ahead) := h
    rw [State.current, heq]
    exact ⟨rest, rfl⟩

theorem startAt (h : Taken s ws s') (hne : ws ≠ []) : StartAt ws s.current.pos := by
  obtain ⟨rest, rfl⟩ := h.eq_cons hne
  rfl

end Taken

namespace State.Ready

/-- A token at hand that is not the end of the source is one of those ahead. -/
theorem current_mem (hs : s.Ready) (h : s.current.kind ≠ .eof) : s.current ∈ s.ahead := by
  cases hahead : s.ahead with
  | nil =>
    simp only [State.current, hahead, List.head?_nil, Option.getD_none, hs.last, ne_eq,
      not_true_eq_false] at h
  | cons t rest => simp [State.current, hahead]

theorem lexical (hs : s.Ready) (h : s.current.kind ≠ .eof) : s.current.Lexical :=
  (hs.tokens _ (hs.current_mem h)).2

/-- Taking a token that is not the end of the source. -/
theorem take {k : TokenKind} (hs : s.Ready) (h : s.current.kind = k)
    (hk : k ≠ .eof := by decide) : Taken s [s.current] s.advanced ∧ s.advanced.Ready := by
  have hmem := hs.current_mem (h ▸ hk)
  obtain ⟨ahead, last, faults⟩ := s
  cases ahead with
  | nil => exact absurd hmem List.not_mem_nil
  | cons t rest =>
    exact ⟨rfl, ⟨hs.last, fun t' ht' => hs.tokens t' (List.mem_cons_of_mem _ ht')⟩⟩

theorem isName (hs : s.Ready) (h : s.current.kind = .ident) : Lexeme.IsName s.current.literal := by
  have hlexical := hs.lexical (h ▸ by decide)
  rwa [Token.Lexical, h] at hlexical

end State.Ready

/-- What a run of a parser comes to: something legible that is derived from the tokens taken. -/
structure Yield {α : Type} (P : List Token → α → Prop) (Q : α → Prop) (s : State) (x : α)
    (s' : State) : Prop where
  derived : ∃ ws, Taken s ws s' ∧ P ws x
  legible : Q x
  ready : s'.Ready

namespace Yield

variable {α : Type} {P : List Token → α → Prop} {Q : α → Prop} {Q' : List α → Prop} {x : α}

/-- Things with commas between them. -/
theorem separated {item : Parse α} {more : Parse (List α)} [Forward item] [Forward more] {xs : List α}
    (hone : ∀ x, Q x → Q' [x]) (hcons : ∀ x xs, Q x → Q' xs → Q' (x :: xs))
    (hitem : ∀ {x s₁}, Reads item s x s₁ → Yield P Q s x s₁)
    (hmore : ∀ {s₁ rest}, s₁.Ready → Reads more s₁ rest s' →
      rest ≠ [] ∧ Yield (Separated P) Q' s₁ rest s')
    (h : Reads (separated item more) s xs s') : xs ≠ [] ∧ Yield (Separated P) Q' s xs s' := by
  simp only [Parser.separated, reads_bind (p := item), reads_accept_bind, if_true, Bool.false_eq_true,
    if_false] at h
  obtain ⟨first, s₁, hfirst, h⟩ := h
  obtain ⟨⟨ws, htaken, hderived⟩, hlegible, hready⟩ := hitem hfirst
  obtain ⟨hcomma, h⟩ | ⟨-, h⟩ := h
  · simp only [reads_bind, reads_pure] at h
    obtain ⟨rest, _, hrest, rfl, rfl⟩ := h
    obtain ⟨hsign, hready⟩ := hready.take hcomma
    obtain ⟨hne, ⟨ws', htaken', hderived'⟩, hlegible', hready'⟩ :=
      hmore hready hrest
    exact ⟨List.cons_ne_nil _ _, ⟨_, (htaken.trans hsign).trans htaken',
      .more hderived hcomma hne hderived'⟩, hcons _ _ hlegible hlegible', hready'⟩
  · obtain ⟨rfl, rfl⟩ := reads_pure.mp h
    exact ⟨List.cons_ne_nil _ _, ⟨ws, htaken, .one hderived⟩, hone _ hlegible, hready⟩

end Yield

section Types

/-- What a run of the parser of types comes to. -/
structure TypeRead (s : State) (t : TypeExpr) (s' : State) : Prop
    extends Yield TypeExpr.Derived TypeExpr.Legible s t s' where
  arrayLike : s.current.kind = .lbracket → t.isArrayLike = true

theorem optionals_sound {t t' : TypeExpr} (ht : TypeRead s₀ t s)
    (hfunction : t.isFunction = true → s.current.kind ≠ .question) (h : Reads (optionals t) s t' s') :
    TypeRead s₀ t' s' ∧ s'.current.kind ≠ .question := by
  obtain ⟨ahead, last, faults⟩ := s
  induction ahead generalizing t with
  | nil =>
    cases h.1
    refine ⟨ht, ?_⟩
    change last.kind ≠ _
    rw [ht.ready.last]
    decide
  | cons token rest ih =>
    by_cases hkind : token.kind = .question
    · have hplain : t.isFunction = false :=
        Bool.eq_false_iff.mpr fun hf => hfunction hf hkind
      obtain ⟨⟨⟨ws, htaken, hderived⟩, hlegible, hready⟩, harray⟩ := ht
      obtain ⟨hsign, hready⟩ := hready.take hkind
      rw [Reads, optionals_question hkind] at h
      exact ih (t := .optional t token.pos) ⟨⟨⟨_, htaken.trans hsign, .optional hderived hkind⟩,
        ⟨hlegible, hplain⟩, hready⟩, harray⟩
        (fun hf => Bool.noConfusion hf) h
    · have hcurrent : (State.mk (token :: rest) last faults).current.kind ≠ .question := hkind
      rw [Reads, optionals_of_ne hcurrent] at h
      cases h.1
      exact ⟨ht, hkind⟩

/-- The parsers of types that have some fuel read legible types. -/
structure TypesSound (fuel : Nat) : Prop where
  type : ∀ {s s' t}, s.Ready → Reads (typeWith fuel) s t s' →
    TypeRead s t s' ∧ s'.current.kind ≠ .question
  types : ∀ {s s' ts}, s.Ready → Reads (typesWith fuel) s ts s' →
    ts ≠ [] ∧ Yield (Separated TypeExpr.Derived) TypeExpr.LegibleAll s ts s'

namespace TypesSound

variable {fuel : Nat}

/-- A function type after its parameters. -/
theorem function (ih : TypesSound fuel) {params : List TypeExpr} {t : TypeExpr} (hs : s.Ready)
    (hopen : s₀.current.kind = .lparen) (htaken : Taken s₀ ([s₀.current] ++ ws) s)
    (hparams : Separated TypeExpr.Derived ws params) (hlegible : TypeExpr.LegibleAll params)
    (h : Reads (do
      let _ ← expect .rparen
      let _ ← expect .arrow
      let result ← typeWith fuel
      optionals (.function params result s₀.current.pos)) s t s') :
    TypeRead s₀ t s' ∧ s'.current.kind ≠ .question := by
  simp only [reads_expect_bind, reads_bind (p := typeWith fuel)] at h
  obtain ⟨hclose, harrow, result, s₁, hresult, h⟩ := h
  obtain ⟨hsign, hready⟩ := hs.take hclose
  obtain ⟨hsign', hready⟩ := hready.take harrow
  obtain ⟨⟨⟨⟨ws', htaken', hderived⟩, hlegible', hready⟩, -⟩, hends⟩ :=
    ih.type hready hresult
  have htaken := ((htaken.trans hsign).trans hsign').trans htaken'
  exact optionals_sound (t := .function params result s₀.current.pos)
    ⟨⟨⟨_, htaken, .function hopen hparams hclose harrow hderived⟩, ⟨hlegible, hlegible'⟩, hready⟩,
      fun hk => nomatch hopen.symm.trans hk⟩
    (fun _ => hends) h

theorem type_succ (ih : TypesSound fuel) {t : TypeExpr} (hs : s.Ready)
    (h : Reads (typeWith (fuel + 1)) s t s') :
    TypeRead s t s' ∧ s'.current.kind ≠ .question := by
  rw [typeWith, typeRule, reads_current_bind] at h
  split at h
  case h_1 hkind =>
    rw [reads_advance_bind] at h
    obtain ⟨htaken, hready⟩ := hs.take hkind
    exact optionals_sound (t := .named _ _) ⟨⟨⟨_, htaken, .named hkind⟩, hs.isName hkind, hready⟩,
      fun hk => nomatch hkind.symm.trans hk⟩ (fun hf => nomatch hf) h
  case h_2 hkind =>
    simp only [reads_advance_bind, reads_bind (p := typeWith fuel), reads_expect_bind] at h
    obtain ⟨base, s₁, hbase, hclose, h⟩ := h
    obtain ⟨hsign, hready⟩ := hs.take hkind
    obtain ⟨⟨⟨⟨ws, htaken, hderived⟩, hlegible, hready⟩, -⟩, -⟩ :=
      ih.type hready hbase
    obtain ⟨hsign', hready⟩ := hready.take hclose
    exact optionals_sound (t := .array base _) ⟨⟨⟨_, (hsign.trans htaken).trans hsign',
      .array hkind hderived hclose⟩, hlegible, hready⟩, fun _ => rfl⟩
      (fun hf => nomatch hf) h
  case h_3 hkind =>
    simp only [reads_advance_bind, reads_at?_bind, reads_ite, reads_pure_bind] at h
    obtain ⟨hsign, hready⟩ := hs.take hkind
    obtain ⟨-, h⟩ | ⟨-, h⟩ := h
    · exact ih.function hready hkind hsign .none trivial h
    · rw [reads_bind] at h
      obtain ⟨params, s₁, hparams, h⟩ := h
      obtain ⟨-, ⟨ws, htaken, hderived⟩, hlegible, hready⟩ :=
        ih.types hready hparams
      exact ih.function hready hkind (hsign.trans htaken) hderived hlegible h
  case h_4 => simp only [reads_bind, not_reads_unexpected, false_and, exists_false] at h

theorem types_succ (ih : TypesSound fuel) {ts : List TypeExpr} (hs : s.Ready)
    (h : Reads (typesWith (fuel + 1)) s ts s') :
    ts ≠ [] ∧ Yield (Separated TypeExpr.Derived) TypeExpr.LegibleAll s ts s' :=
  Yield.separated (fun _ h => ⟨h, trivial⟩) (fun _ _ h h' => ⟨h, h'⟩)
    (fun hfirst => (ih.type hs hfirst).1.1)
    (fun hready hrest => ih.types hready hrest) h

end TypesSound

theorem types_sound (fuel : Nat) : TypesSound fuel := by
  induction fuel with
  | zero => exact ⟨fun _ h => absurd h not_reads_exhausted, fun _ h => absurd h not_reads_exhausted⟩
  | succ fuel ih => exact ⟨ih.type_succ, ih.types_succ⟩

theorem type_sound {t : TypeExpr} (hs : s.Ready) (h : Reads type s t s') : TypeRead s t s' := by
  rw [type, reads_get_bind] at h
  exact ((types_sound _).type hs h).1

end Types

section Expressions

theorem reads_speculate {α : Type} {p : Parse (Option α)} {r : Option α}
    (h : Reads (speculate p) s r s') :
    (∃ a t, r = some a ∧ Reads p { s with faults := [] } (some a) t ∧
      s' = { t with faults := s.faults }) ∨ (r = none ∧ s' = s) := by
  have hrun := h.1
  rw [speculate_run] at hrun
  split at hrun
  case h_1 a after hp =>
    split at hrun
    case isTrue hempty =>
      cases hrun
      exact .inl ⟨a, after, rfl, ⟨hp, by simpa using hempty⟩, rfl⟩
    case isFalse =>
      cases hrun
      exact .inr ⟨rfl, rfl⟩
  case h_2 =>
    cases hrun
    exact .inr ⟨rfl, rfl⟩

theorem faults_emptyArray? (s : State) : (emptyArray? s).2.faults = s.faults :=
  faults_speculate _ s

/-- What a run of a parser of expressions of a level comes to, if the expression goes on up to a token
that ends it. -/
structure ExprRead (n : Nat) (ends : TokenKind → Bool) (s : State) (e : Expr) (s' : State) : Prop
    extends Yield (Expr.Derived n) Expr.Legible s e s' where
  ends : ends s'.current.kind = true

/-- Whether an expression is written with the token at hand first, if that opens no parentheses. -/
def Leads (s : State) (e : Expr) : Prop :=
  s.current.kind = .lparen ∨ (e.level = 7 ∧ e.head = s.current.kind)

/-- What follows an operand does not change its first token. -/
theorem Leads.access {e object : Expr} (h : Leads s object) (hlevel : e.level = 7)
    (hhead : e.head = if object.level < 7 then .lparen else object.head) : Leads s e := by
  refine h.imp_right fun ⟨hobject, hfirst⟩ => ⟨hlevel, ?_⟩
  rw [hhead, hobject, if_neg (Nat.lt_irrefl _), hfirst]

theorem emptyArray?_sound {r : Option Expr} (hs : s.Ready) (hkind : s.current.kind = .lbracket)
    (h : Reads emptyArray? s r s') :
    (∃ e, r = some e ∧ Yield (Expr.Derived 8) Expr.Legible s e s' ∧ Leads s e) ∨
      (r = none ∧ s' = s) := by
  rw [emptyArray?, reads_current_bind] at h
  obtain ⟨e, s₁, rfl, htrial, rfl⟩ | hnone := reads_speculate h
  · have hready : State.Ready { s with faults := [] } := ⟨hs.last, hs.tokens⟩
    dsimp only at htrial
    simp only [reads_bind (p := type), reads_accept_bind, if_true, Bool.false_eq_true, if_false,
      reads_pure, reduceCtorEq, false_and, and_false, or_false, Option.some.injEq] at htrial
    obtain ⟨t, s₂, htype, hopen, hclose, rfl, rfl⟩ := htrial
    obtain ⟨⟨⟨ws, htaken, hderived⟩, hlegible, hready⟩, harray⟩ := type_sound hready htype
    obtain ⟨hsign, hready⟩ := hready.take hopen
    obtain ⟨hsign', hready⟩ := hready.take hclose
    obtain ⟨rest, rfl⟩ := htaken.eq_cons hderived.ne_nil
    exact .inl ⟨_, rfl, ⟨⟨_, (htaken.trans hsign).trans hsign',
      .emptyArray hkind hderived hopen hclose⟩, ⟨hlegible, harray hkind⟩,
      ⟨hready.last, hready.tokens⟩⟩, .inr ⟨rfl, hkind.symm⟩⟩
  · exact .inr hnone

theorem operatorFrom?_eq_some {level : Nat} {k : TokenKind} {op : BinaryOp}
    (h : operatorFrom? level k = some op) :
    BinaryOp.ofToken? k = some op ∧ k = op.token ∧ level ≤ op.level ∧ op ≠ .pow := by
  cases k <;> simp_all [operatorFrom?, BinaryOp.ofToken?]
  all_goals
    obtain ⟨h, rfl⟩ := h
    exact ⟨rfl, h, by decide⟩

theorem endsOperation_of_none {level : Nat} {k : TokenKind} (hfactor : endsFactor k = true)
    (h : operatorFrom? level k = none) : endsOperation level k = true := by
  cases k <;> simp_all [operatorFrom?, endsOperation, BinaryOp.ofToken?, endsFactor]

theorem endsFactor_of {k : TokenKind} (haccess : endsAccess k = true) (h : k ≠ .power) :
    endsFactor k = true := by
  simp [endsFactor, haccess, h]

/-- The operation that an operator makes of what stands before and after it. -/
theorem derived_operation {op : BinaryOp} {sign : Token} {left right : Expr} {m : Nat}
    {compared : Bool} (hleft : left.Derived m ws) (hle : op.level ≤ m) (hpow : op ≠ .pow)
    (hcompared : m = 3 → compared = true) (hsign : sign.kind = op.token)
    (hright : right.Derived (op.level + 1) ws') (hchain : ¬(op.isComparison && compared) = true) :
    (Expr.binary op left right sign.pos).Derived op.level (ws ++ [sign] ++ ws') := by
  by_cases hcomparison : op.isComparison = true
  · have hlevel := BinaryOp.isComparison_iff.mp hcomparison
    -- A comparison on the left would be a second one in a row.
    have hne : m ≠ 3 := fun hm => hchain (by rw [hcomparison, hcompared hm]; rfl)
    rw [hlevel] at hright hle ⊢
    exact .comparison (BinaryOp.mem_ofLevel_iff.mpr hlevel) (hleft.loosen (by omega)) hsign hright
  · have hlevel : op.level ∈ [1, 2, 4, 5] := by
      cases op with
      | pow => exact absurd rfl hpow
      | lt | gt | leq | geq | eq | neq => exact absurd rfl hcomparison
      | _ => decide
    exact .operation hlevel (BinaryOp.mem_ofLevel_iff.mpr rfl) (hleft.loosen hle) hsign hright

/-- The parsers of expressions that have some fuel read legible expressions. -/
structure ExpressionsSound (fuel : Nat) : Prop where
  expression : ∀ {s s' e}, s.Ready → Reads (expressionWith fuel) s e s' →
    ExprRead 0 endsExpression s e s'
  operation : ∀ {s s' e level}, s.Ready → level ≤ 6 →
    Reads (operationWith fuel level) s e s' → ExprRead level (endsOperation level) s e s'
  -- The operand so far has the level of its last operator, and none that is tighter follows. It
  -- is a comparison only if a comparison was read.
  operations : ∀ {s₀ s s' e level compared left m}, ExprRead m (endsOperation (m + 1)) s₀ left s →
    level ≤ m → (m = 3 → compared = true) →
    Reads (operationsWith fuel level compared left) s e s' →
    ExprRead level (endsOperation level) s₀ e s'
  factor : ∀ {s s' e}, s.Ready → Reads (factorWith fuel) s e s' → ExprRead 6 endsFactor s e s'
  access : ∀ {s s' e}, s.Ready → Reads (accessWith fuel) s e s' →
    ExprRead 7 endsAccess s e s' ∧ Leads s e
  accesses : ∀ {s₀ s s' e object}, Yield (Expr.Derived 7) Expr.Legible s₀ object s →
    Leads s₀ object → Reads (accessesWith fuel object) s e s' →
    ExprRead 7 endsAccess s₀ e s' ∧ Leads s₀ e
  primary : ∀ {s s' e}, s.Ready → Reads (primaryWith fuel) s e s' →
    Yield (Expr.Derived 8) Expr.Legible s e s' ∧ Leads s e
  expressions : ∀ {s s' es}, s.Ready → Reads (expressionsWith fuel) s es s' →
    es ≠ [] ∧ Yield (Separated (Expr.Derived 0)) Expr.LegibleAll s es s'

namespace ExpressionsSound

variable {fuel : Nat}

theorem expression_succ (ih : ExpressionsSound fuel) {e : Expr} (hs : s.Ready)
    (h : Reads (expressionWith (fuel + 1)) s e s') :
    ExprRead 0 endsExpression s e s' := by
  simp only [expressionWith, expressionRule, reads_bind (p := operationWith fuel 1),
    reads_accept_bind, if_true, Bool.false_eq_true, if_false] at h
  obtain ⟨test, s₁, htest, h⟩ := h
  obtain ⟨⟨⟨ws, htaken, hderived⟩, hlegible, hready⟩, hends⟩ :=
    ih.operation hs (by omega) htest
  obtain ⟨hquestion, h⟩ | ⟨hquestion, h⟩ := h
  · simp only [reads_bind (p := expressionWith fuel), reads_expect_bind, reads_pure] at h
    obtain ⟨consequent, s₂, hconsequent, hcolon, alternate, _, halternate, rfl, rfl⟩ := h
    obtain ⟨hsign, hready⟩ := hready.take hquestion
    obtain ⟨⟨⟨ws', htaken', hderived'⟩, hlegible', hready⟩, -⟩ :=
      ih.expression hready hconsequent
    obtain ⟨hsign', hready⟩ := hready.take hcolon
    obtain ⟨⟨⟨ws'', htaken'', hderived''⟩, hlegible'', hready⟩, hends⟩ :=
      ih.expression hready halternate
    have htaken := (((htaken.trans hsign).trans htaken').trans hsign').trans htaken''
    exact ⟨⟨⟨_, htaken, .conditional hderived hquestion hderived' hcolon hderived''⟩,
      ⟨hlegible, hlegible', hlegible''⟩, hready⟩, hends⟩
  · obtain ⟨rfl, rfl⟩ := reads_pure.mp h
    exact ⟨⟨⟨ws, htaken, hderived.tighter⟩, hlegible, hready⟩,
      by simp [endsExpression, hends, hquestion]⟩

theorem operation_succ (ih : ExpressionsSound fuel) {e : Expr} {level : Nat} (hs : s.Ready)
    (hlevel : level ≤ 6)
    (h : Reads (operationWith (fuel + 1) level) s e s') :
    ExprRead level (endsOperation level) s e s' := by
  rw [operationWith, operationRule, reads_bind] at h
  obtain ⟨left, s₁, hleft, h⟩ := h
  obtain ⟨hread, hends⟩ := ih.factor hs hleft
  have hends : endsOperation 7 s₁.current.kind = true := by
    rw [endsOperation, hends]
    cases s₁.current.kind <;> rfl
  exact ih.operations ⟨hread, hends⟩ hlevel (fun h => by omega) h

theorem operations_succ (ih : ExpressionsSound fuel) {e left : Expr} {level m : Nat}
    {compared : Bool} (hleft : ExprRead m (endsOperation (m + 1)) s₀ left s)
    (hlevel : level ≤ m)
    (hcompared : m = 3 → compared = true)
    (h : Reads (operationsWith (fuel + 1) level compared left) s e s') :
    ExprRead level (endsOperation level) s₀ e s' := by
  obtain ⟨⟨⟨ws, htaken, hderived⟩, hlegible, hready⟩, hends⟩ := hleft
  rw [endsOperation, Bool.and_eq_true] at hends
  rw [operationsWith, operationsRule, reads_current_bind] at h
  split at h
  case h_1 hnone =>
    obtain ⟨rfl, rfl⟩ := reads_pure.mp h
    exact ⟨⟨⟨ws, htaken, hderived.loosen hlevel⟩, hlegible, hready⟩,
      endsOperation_of_none hends.1 hnone⟩
  case h_2 op hop =>
    obtain ⟨hoperator, hsign, hfrom, hpow⟩ := operatorFrom?_eq_some hop
    have hle : op.level ≤ m := by
      rw [hoperator] at hends
      exact Nat.le_of_lt_succ (of_decide_eq_true hends.2)
    simp only [reads_advance_bind, reads_ite] at h
    obtain ⟨-, h⟩ | ⟨hchain, h⟩ := h
    · simp only [reads_bind, not_reads_fault, false_and, exists_false] at h
    · rw [reads_bind] at h
      obtain ⟨right, s₁, hright, h⟩ := h
      have hbound : op.level + 1 ≤ 6 := by
        cases op with
        | pow => exact absurd rfl hpow
        | _ => decide
      obtain ⟨hoperand, hready⟩ := hready.take hsign (by cases op <;> decide)
      obtain ⟨⟨⟨ws', htaken', hderived'⟩, hlegible', hready⟩, hends⟩ :=
        ih.operation hready hbound hright
      have hbinary := derived_operation hderived hle hpow hcompared hsign hderived' hchain
      have hnext : op.level = 3 → (compared || op.isComparison) = true := fun hthree => by
        rw [BinaryOp.isComparison_iff.mpr hthree, Bool.or_true]
      exact ih.operations ⟨⟨⟨_, (htaken.trans hoperand).trans htaken', hbinary⟩,
        ⟨hlegible, hlegible'⟩, hready⟩, hends⟩ hfrom hnext h

theorem factor_succ (ih : ExpressionsSound fuel) {e : Expr} (hs : s.Ready)
    (h : Reads (factorWith (fuel + 1)) s e s') :
    ExprRead 6 endsFactor s e s' := by
  rw [factorWith, factorRule, reads_current_bind] at h
  split at h
  case h_1 op hop =>
    simp only [reads_advance_bind, reads_bind (p := factorWith fuel), reads_pure] at h
    obtain ⟨operand, _, hoperand, rfl, rfl⟩ := h
    have hsign := UnaryOp.eq_token hop
    obtain ⟨htaken, hready⟩ := hs.take hsign (by cases op <;> decide)
    obtain ⟨⟨⟨ws, htaken', hderived⟩, hlegible, hready⟩, hends⟩ :=
      ih.factor hready hoperand
    exact ⟨⟨⟨_, htaken.trans htaken', .unary hsign hderived⟩, hlegible, hready⟩, hends⟩
  case h_2 =>
    simp only [reads_bind (p := accessWith fuel), reads_current_bind, reads_ite, beq_iff_eq] at h
    obtain ⟨left, s₁, hleft, h⟩ := h
    obtain ⟨⟨⟨⟨ws, htaken, hderived⟩, hlegible, hready⟩, hends⟩, -⟩ :=
      ih.access hs hleft
    obtain ⟨hpower, h⟩ | ⟨hpower, h⟩ := h
    · simp only [reads_advance_bind, reads_bind (p := factorWith fuel), reads_pure] at h
      obtain ⟨right, _, hright, rfl, rfl⟩ := h
      obtain ⟨hsign, hready⟩ := hready.take hpower
      obtain ⟨⟨⟨ws', htaken', hderived'⟩, hlegible', hready⟩, hends⟩ :=
        ih.factor hready hright
      exact ⟨⟨⟨_, (htaken.trans hsign).trans htaken', .power hderived hpower hderived'⟩,
        ⟨hlegible, hlegible'⟩, hready⟩, hends⟩
    · obtain ⟨rfl, rfl⟩ := reads_pure.mp h
      exact ⟨⟨⟨ws, htaken, hderived.tighter⟩, hlegible, hready⟩,
        endsFactor_of hends hpower⟩

theorem access_succ (ih : ExpressionsSound fuel) {e : Expr} (hs : s.Ready)
    (h : Reads (accessWith (fuel + 1)) s e s') :
    ExprRead 7 endsAccess s e s' ∧ Leads s e := by
  rw [accessWith, accessRule, reads_bind] at h
  obtain ⟨object, s₁, hobject, h⟩ := h
  obtain ⟨⟨⟨ws, htaken, hderived⟩, hlegible, hready⟩, hleads⟩ :=
    ih.primary hs hobject
  exact ih.accesses ⟨⟨ws, htaken, hderived.tighter⟩, hlegible, hready⟩ hleads h

/-- A call, up to its closing parenthesis, and what follows it. -/
theorem accesses_call (ih : ExpressionsSound fuel) {e object : Expr} {args : List Expr}
    {opening : Token} (hs : s.Ready) (htaken : Taken s₀ (ws ++ [opening] ++ ws') s)
    (hobject : object.Derived 7 ws) (hlegible : object.Legible) (hleads : Leads s₀ object)
    (hopen : opening.kind = .lparen) (hargs : Separated (Expr.Derived 0) ws' args)
    (hlegible' : Expr.LegibleAll args)
    (h : Reads (do
      let _ ← expect .rparen
      accessesWith fuel (.call object args opening.pos)) s e s') :
    ExprRead 7 endsAccess s₀ e s' ∧ Leads s₀ e := by
  rw [reads_expect_bind] at h
  obtain ⟨hclose, h⟩ := h
  obtain ⟨hsign, hready⟩ := hs.take hclose
  exact ih.accesses ⟨⟨_, htaken.trans hsign, .call hobject hopen hargs hclose⟩,
    ⟨hlegible, hlegible'⟩, hready⟩ (hleads.access rfl rfl) h

theorem accesses_succ (ih : ExpressionsSound fuel) {e object : Expr}
    (hobject : Yield (Expr.Derived 7) Expr.Legible s₀ object s)
    (hleads : Leads s₀ object)
    (h : Reads (accessesWith (fuel + 1) object) s e s') :
    ExprRead 7 endsAccess s₀ e s' ∧ Leads s₀ e := by
  obtain ⟨⟨ws, htaken, hderived⟩, hlegible, hready⟩ := hobject
  rw [accessesWith, accessesRule, reads_current_bind] at h
  split at h
  case h_1 hkind =>
    simp only [reads_advance_bind, reads_bind (p := expressionWith fuel), reads_expect_bind] at h
    obtain ⟨index, s₁, hindex, hclose, h⟩ := h
    obtain ⟨hsign, hready⟩ := hready.take hkind
    obtain ⟨⟨⟨ws', htaken', hderived'⟩, hlegible', hready⟩, -⟩ :=
      ih.expression hready hindex
    obtain ⟨hsign', hready⟩ := hready.take hclose
    exact ih.accesses ⟨⟨_, ((htaken.trans hsign).trans htaken').trans hsign',
      .index hderived hkind hderived' hclose⟩, ⟨hlegible, hlegible'⟩, hready⟩
      (hleads.access rfl rfl) h
  case h_2 hkind =>
    simp only [reads_advance_bind, reads_expect_bind] at h
    obtain ⟨hname, h⟩ := h
    obtain ⟨hsign, hready⟩ := hready.take hkind
    have hlexeme := hready.isName hname
    obtain ⟨hsign', hready⟩ := hready.take hname
    exact ih.accesses ⟨⟨_, (htaken.trans hsign).trans hsign', .member hderived hkind hname⟩,
      ⟨hlegible, hlexeme⟩, hready⟩ (hleads.access rfl rfl) h
  case h_3 hkind =>
    simp only [reads_advance_bind, reads_at?_bind, reads_ite, reads_pure_bind] at h
    obtain ⟨hsign, hready⟩ := hready.take hkind
    have htaken := htaken.trans hsign
    obtain ⟨-, h⟩ | ⟨-, h⟩ := h
    · exact ih.accesses_call hready (htaken.trans (.refl _)) hderived hlegible
        hleads hkind .none trivial h
    · rw [reads_bind] at h
      obtain ⟨args, s₁, hargs, h⟩ := h
      obtain ⟨-, ⟨ws', htaken', hderived'⟩, hlegible', hready⟩ :=
        ih.expressions hready hargs
      exact ih.accesses_call hready (htaken.trans htaken') hderived hlegible
        hleads hkind hderived' hlegible' h
  case h_4 hbracket hdot hparen =>
    obtain ⟨rfl, rfl⟩ := reads_pure.mp h
    have hends : endsAccess s.current.kind = true := by
      rw [endsAccess, Bool.and_eq_true, Bool.and_eq_true]
      exact ⟨⟨bne_iff_ne.mpr hbracket, bne_iff_ne.mpr hdot⟩, bne_iff_ne.mpr hparen⟩
    exact ⟨⟨⟨⟨ws, htaken, hderived⟩, hlegible, hready⟩, hends⟩, hleads⟩

/-- An operand of one token. -/
theorem primary_token {k : TokenKind} {e e' : Expr} (hs : s.Ready) (hkind : s.current.kind = k)
    (hk : k ≠ .eof) (h : Reads (do let _ ← advance; return e') s e s')
    (hderived : e'.Derived 8 [s.current]) (hlegible : s.current.Lexical → e'.Legible)
    (hlevel : e'.level = 7) (hhead : e'.head = k) :
    Yield (Expr.Derived 8) Expr.Legible s e s' ∧ Leads s e := by
  simp only [reads_advance_bind, reads_pure] at h
  obtain ⟨rfl, rfl⟩ := h
  obtain ⟨htaken, hready⟩ := hs.take hkind hk
  exact ⟨⟨⟨_, htaken, hderived⟩, hlegible (hs.lexical (hkind ▸ hk)), hready⟩,
    .inr ⟨hlevel, hhead.trans hkind.symm⟩⟩

/-- An array, from its elements on. -/
theorem primary_array {e : Expr} {elements : List Expr} (hs : s.Ready)
    (hopen : s₀.current.kind = .lbracket)
    (htaken : Taken s₀ ([s₀.current] ++ ws) s) (hderived : Separated (Expr.Derived 0) ws elements)
    (hlegible : Expr.LegibleAll elements)
    (h : Reads (do
      let _ ← expect .rbracket
      return Expr.array elements s₀.current.pos) s e s') :
    Yield (Expr.Derived 8) Expr.Legible s₀ e s' ∧ Leads s₀ e := by
  simp only [reads_expect_bind, reads_pure] at h
  obtain ⟨hclose, rfl, rfl⟩ := h
  obtain ⟨hsign, hready⟩ := hs.take hclose
  exact ⟨⟨⟨_, htaken.trans hsign, .array hopen hderived hclose⟩, hlegible, hready⟩,
    .inr ⟨rfl, hopen.symm⟩⟩

theorem primary_succ (ih : ExpressionsSound fuel) {e : Expr} (hs : s.Ready)
    (h : Reads (primaryWith (fuel + 1)) s e s') :
    Yield (Expr.Derived 8) Expr.Legible s e s' ∧ Leads s e := by
  rw [primaryWith, primaryRule, reads_current_bind] at h
  split at h
  case h_1 hkind =>
    refine primary_token hs hkind (by decide) h (.int hkind) (fun hl => ?_) rfl rfl
    rwa [Token.Lexical, hkind] at hl
  case h_2 hkind =>
    refine primary_token hs hkind (by decide) h (.float hkind) (fun hl => ?_) rfl rfl
    rwa [Token.Lexical, hkind] at hl
  case h_3 hkind =>
    refine primary_token hs hkind (by decide) h (.string hkind) (fun hl => ?_) rfl rfl
    rwa [Token.Lexical, hkind] at hl
  case h_4 hkind =>
    exact primary_token hs hkind (by decide) h (.yes hkind) (fun _ => trivial) rfl rfl
  case h_5 hkind =>
    exact primary_token hs hkind (by decide) h (.no hkind) (fun _ => trivial) rfl rfl
  case h_6 hkind =>
    exact primary_token hs hkind (by decide) h (.shot hkind) (fun _ => trivial) rfl rfl
  case h_7 hkind =>
    exact primary_token hs hkind (by decide) h (.name hkind) (fun _ => hs.isName hkind) rfl rfl
  case h_8 hkind =>
    simp only [reads_advance_bind, reads_bind (p := expressionWith fuel), reads_expect_bind,
      reads_pure] at h
    obtain ⟨inner, s₁, hinner, hclose, rfl, rfl⟩ := h
    obtain ⟨hsign, hready⟩ := hs.take hkind
    obtain ⟨⟨⟨ws, htaken, hderived⟩, hlegible, hready⟩, -⟩ :=
      ih.expression hready hinner
    obtain ⟨hsign', hready⟩ := hready.take hclose
    exact ⟨⟨⟨_, (hsign.trans htaken).trans hsign', .parenthesized hkind hderived hclose⟩, hlegible,
      hready⟩, .inl hkind⟩
  case h_9 hkind =>
    obtain ⟨r, s₁, hempty, h⟩ := reads_bind_of_faults_eq (faults_emptyArray? s) h
    obtain ⟨empty, rfl, hread⟩ | ⟨rfl, rfl⟩ := emptyArray?_sound hs hkind hempty
    · obtain ⟨rfl, rfl⟩ := reads_pure.mp h
      exact hread
    · obtain ⟨hsign, hready⟩ := hs.take hkind
      simp only [reads_advance_bind, reads_at?_bind, reads_ite, reads_pure_bind] at h
      obtain ⟨-, h⟩ | ⟨-, h⟩ := h
      · exact primary_array hready hkind hsign .none trivial h
      · rw [reads_bind (p := expressionsWith fuel)] at h
        obtain ⟨elements, s₂, helements, h⟩ := h
        obtain ⟨-, ⟨ws, htaken, hderived⟩, hlegible, hready⟩ :=
          ih.expressions hready helements
        exact primary_array hready hkind (hsign.trans htaken) hderived hlegible h
  case h_10 => simp only [reads_bind, not_reads_unexpected, false_and, exists_false] at h

theorem expressions_succ (ih : ExpressionsSound fuel) {es : List Expr} (hs : s.Ready)
    (h : Reads (expressionsWith (fuel + 1)) s es s') :
    es ≠ [] ∧ Yield (Separated (Expr.Derived 0)) Expr.LegibleAll s es s' :=
  Yield.separated (fun _ h => ⟨h, trivial⟩) (fun _ _ h h' => ⟨h, h'⟩)
    (fun hfirst => (ih.expression hs hfirst).1)
    (fun hready hrest => ih.expressions hready hrest) h

end ExpressionsSound

theorem expressions_sound (fuel : Nat) : ExpressionsSound fuel := by
  induction fuel with
  | zero =>
    constructor
    all_goals
      intros
      exact absurd ‹Reads _ _ _ _› not_reads_exhausted
  | succ fuel ih =>
    exact ⟨ih.expression_succ, ih.operation_succ, ih.operations_succ, ih.factor_succ, ih.access_succ,
      ih.accesses_succ, ih.primary_succ, ih.expressions_succ⟩

theorem expression_sound {e : Expr} (hs : s.Ready) (h : Reads expression s e s') :
    ExprRead 0 endsExpression s e s' := by
  rw [expression, reads_get_bind] at h
  exact (expressions_sound _).expression hs h

theorem access_sound {e : Expr} (hs : s.Ready) (h : Reads access s e s') :
    ExprRead 7 endsAccess s e s' ∧ Leads s e := by
  rw [access, reads_get_bind] at h
  exact (expressions_sound _).access hs h

end Expressions

end PeakLang.Tree.Parser
