import PeakLang.Proofs.Typed.Simplify
import PeakLang.Typed.Check

namespace PeakLang.Typed

variable {classes : List Class} {place : Text}

@[simp] theorem Issue.when_eq_nil {condition : Bool} {problem : Problem} :
    Issue.when condition place problem = [] ↔ condition = false := by
  cases condition <;> simp [Issue.when]

theorem isTypedVariable_iff {v : Option Variable} :
    isTypedVariable v = true ↔ ∃ w, v = some w ∧ w.type.isTyped = true := by
  cases v <;> simp [isTypedVariable]

theorem isTypedVariable_of_known {w : Variable} (h : w.type.known = true) :
    isTypedVariable (some w) = true :=
  isTypedVariable_iff.mpr ⟨w, rfl, Ty.isTyped_of_known h⟩

theorem paramIssues_eq_nil_iff {params : List (Option Variable)} {s : Signature} :
    paramIssues place params s = [] ↔
      params.length = s.params.length ∧ ∀ p ∈ params, isTypedVariable p = true := by
  rw [paramIssues]
  split
  case isTrue hlength =>
    have hmap : params.zipIdx.map Prod.fst = params := List.zipIdx_map_fst 0 params
    rw [List.flatMap_eq_nil_iff, and_iff_right (beq_iff_eq.mp hlength)]
    nth_rewrite 2 [← hmap]
    simp only [List.forall_mem_map, Issue.when_eq_nil, Bool.not_eq_false']
  case isFalse hlength =>
    have hne : params.length ≠ s.params.length := fun heq => hlength (beq_iff_eq.mpr heq)
    simp [hne]

theorem classIssues_eq_nil_iff {c : Class} {bodies : Nat} :
    classIssues place c bodies = [] ↔
      (∀ f ∈ c.fields, f.type.isTyped = true) ∧ bodies = c.methods.length := by
  simp only [classIssues, List.append_eq_nil_iff, List.flatMap_eq_nil_iff, Issue.when_eq_nil,
    Bool.not_eq_false', bne_eq_false_iff_eq]

/-- A return without a value has no issues, and neither has one of a value without issues. -/
theorem Stmt.issues_ret {value : Expr} :
    (Stmt.ret value).issues place = [] ↔ value = .missing ∨ value.issues place = [] := by
  cases value <;> simp [Stmt.issues, Expr.issues]

section Rules

namespace Expr

mutual

/-- An expression that obeys the rules has no issues. -/
theorem WellTyped.issues_eq_nil (hclasses : ∀ c ∈ classes, c.Known) (e : Expr)
    (h : e.WellTyped classes) (place : Text) : e.issues place = [] := by
  have htype : e.type.isTyped = true := Ty.isTyped_of_known (h.type_known hclasses)
  cases e with
  | missing => exact h.elim
  | int | float | string | bool => rfl
  | var v =>
    obtain ⟨w, rfl, hknown⟩ := h
    simp only [issues, Issue.when_eq_nil, isTypedVariable_of_known hknown, Bool.not_true]
  | function f =>
    obtain ⟨g, s, rfl, hs, -⟩ := h
    simp only [issues, Issue.when_eq_nil, Option.any_some, hs, Option.isSome_some, Bool.not_true]
  | cls c type =>
    obtain ⟨k, -, rfl, -⟩ := h
    simp only [issues, Issue.when_eq_nil, Option.isNone_some, Bool.false_or, Bool.not_eq_false']
    exact htype
  | self c =>
    obtain ⟨k, rfl⟩ := Option.isSome_iff_exists.mp h
    simp only [issues, Issue.when_eq_nil, Option.isNone_some]
  | unary op operand type =>
    simp only [issues, List.append_eq_nil_iff, Issue.when_eq_nil, Bool.not_eq_false']
    exact ⟨htype, WellTyped.issues_eq_nil hclasses operand h.1 place⟩
  | binary op left right type =>
    simp only [issues, List.append_eq_nil_iff, Issue.when_eq_nil, Bool.not_eq_false']
    exact ⟨⟨htype, WellTyped.issues_eq_nil hclasses left h.1 place⟩,
      WellTyped.issues_eq_nil hclasses right h.2.1 place⟩
  | conditional test consequent alternate type =>
    simp only [issues, List.append_eq_nil_iff, Issue.when_eq_nil, Bool.not_eq_false']
    exact ⟨⟨⟨htype, WellTyped.issues_eq_nil hclasses test h.1 place⟩,
      WellTyped.issues_eq_nil hclasses consequent h.2.1 place⟩,
      WellTyped.issues_eq_nil hclasses alternate h.2.2.1 place⟩
  | call callee args type =>
    simp only [issues, List.append_eq_nil_iff, Issue.when_eq_nil, Bool.not_eq_false']
    exact ⟨⟨htype, WellTyped.issues_eq_nil hclasses callee h.1 place⟩,
      WellTypedAll.issuesOfAll_eq_nil hclasses args h.2.1 place _ 0⟩
  | index object i type =>
    simp only [issues, List.append_eq_nil_iff, Issue.when_eq_nil, Bool.not_eq_false']
    exact ⟨⟨htype, WellTyped.issues_eq_nil hclasses object h.1 place⟩,
      WellTyped.issues_eq_nil hclasses i h.2.1 place⟩
  | member object field method type =>
    simp only [issues, List.append_eq_nil_iff, Issue.when_eq_nil, Bool.not_eq_false']
    refine ⟨⟨htype, ?_⟩, WellTyped.issues_eq_nil hclasses object h.1 place⟩
    obtain ⟨-, hrule⟩ := h
    generalize object.type = t at hrule
    cases hrule <;> rfl
  | array elements type =>
    simp only [issues, List.append_eq_nil_iff, Issue.when_eq_nil, Bool.not_eq_false',
      List.isEmpty_eq_false_iff]
    exact ⟨⟨htype, h.1⟩, WellTypedAll.issuesOfAll_eq_nil hclasses elements h.2.1 place _ 0⟩
  | emptyArray type =>
    simp only [issues, Issue.when_eq_nil, Bool.not_eq_false']
    exact htype

theorem WellTypedAll.issuesOfAll_eq_nil (hclasses : ∀ c ∈ classes, c.Known) (es : List Expr)
    (h : WellTypedAll classes es) (place label : Text) (n : Nat) :
    issuesOfAll place label n es = [] := by
  cases es with
  | nil => rfl
  | cons e rest =>
    rw [issuesOfAll, WellTyped.issues_eq_nil hclasses e h.1,
      WellTypedAll.issuesOfAll_eq_nil hclasses rest h.2, List.append_nil]

end

end Expr

/-- Parameters that a known signature describes have no issues. -/
theorem ParamRule.paramIssues_eq_nil {params : List (Option Variable)} {s : Signature}
    (h : ParamRule params s) (hknown : s.known = true) : paramIssues place params s = [] := by
  rw [paramIssues_eq_nil_iff]
  constructor
  · have hlengths := congrArg List.length h
    rwa [List.length_map, List.length_map] at hlengths
  · intro p hp
    have hmem : p.map Variable.type ∈ s.params.map some := h ▸ List.mem_map_of_mem hp
    obtain ⟨t, ht, hsome⟩ := List.mem_map.mp hmem
    obtain ⟨w, rfl, rfl⟩ := Option.map_eq_some_iff.mp hsome.symm
    exact isTypedVariable_of_known ((Signature.known_iff.mp hknown).1 _ ht)

mutual

/-- A statement that obeys the rules has no issues. -/
theorem Stmt.WellTyped.issues_eq_nil (hclasses : ∀ c ∈ classes, c.Known) (s : Stmt)
    {function : Option Signature} (h : s.WellTyped classes function) (place : Text) :
    s.issues place = [] := by
  cases s with
  | missing | missingCall => exact h.elim
  | declare v init =>
    obtain ⟨hinit, w, rfl, htype⟩ := h
    have hknown : w.type.known = true := htype ▸ hinit.type_known hclasses
    rw [Stmt.issues, isTypedVariable_of_known hknown, hinit.issues_eq_nil hclasses]
    rfl
  | function f params body =>
    obtain ⟨⟨id, name, signature, builtin⟩, sig, rfl, rfl, hknown, hparams, hbody⟩ := h
    rw [Stmt.issues, hparams.paramIssues_eq_nil hknown,
      Stmt.WellTypedAll.issuesOfAll_eq_nil hclasses body hbody, List.append_nil]
  | cls c methods =>
    obtain ⟨k, -, rfl, hknown, hmethods, hbodies⟩ := h
    have hclass : classIssues place k methods.length = [] := by
      have hlengths := congrArg List.length hmethods
      rw [List.length_map] at hlengths
      exact classIssues_eq_nil_iff.mpr ⟨fun f hf => Ty.isTyped_of_known (hknown.1 f hf), hlengths⟩
    rw [Stmt.issues, hclass]
    refine MethodBody.WellTypedAll.issuesOfAll_eq_nil hclasses methods (fun m hm => ?_) hbodies _ _
    exact hknown.2 m (hmethods ▸ hm)
  | assign target source =>
    rw [Stmt.issues, h.1.issues_eq_nil hclasses, h.2.1.issues_eq_nil hclasses, List.append_nil]
  | bump op target => exact h.1.issues_eq_nil hclasses target place
  | branch test consequent alternate =>
    rw [Stmt.issues, h.1.issues_eq_nil hclasses,
      Stmt.WellTypedAll.issuesOfAll_eq_nil hclasses consequent h.2.2.1,
      Stmt.WellTypedAll.issuesOfAll_eq_nil hclasses alternate h.2.2.2, List.append_nil,
      List.append_nil]
  | shortBranch test consequent =>
    rw [Stmt.issues, h.1.issues_eq_nil hclasses,
      Stmt.WellTypedAll.issuesOfAll_eq_nil hclasses consequent h.2.2, List.append_nil]
  | loop test body =>
    rw [Stmt.issues, h.1.issues_eq_nil hclasses,
      Stmt.WellTypedAll.issuesOfAll_eq_nil hclasses body h.2.2, List.append_nil]
  | forEach v collection body =>
    obtain ⟨hcollection, ⟨w, rfl, htype⟩, hbody⟩ := h
    have hknown : w.type.known = true := by
      have hknown := hcollection.type_known hclasses
      rwa [htype, Ty.known] at hknown
    rw [Stmt.issues, isTypedVariable_of_known hknown, hcollection.issues_eq_nil hclasses,
      Stmt.WellTypedAll.issuesOfAll_eq_nil hclasses body hbody]
    rfl
  | leave => rfl
  | ret value =>
    obtain ⟨sig, -, ⟨-, hmissing⟩ | ⟨-, hvalue, -⟩⟩ := h
    · exact Stmt.issues_ret.mpr (.inl hmissing)
    · exact Stmt.issues_ret.mpr (.inr (hvalue.issues_eq_nil hclasses value place))
  | print value => exact Expr.WellTyped.issues_eq_nil hclasses value h place
  | call callee args type => exact Expr.WellTyped.issues_eq_nil hclasses (.call callee args type) h place

theorem MethodBody.WellTyped.issues_eq_nil (hclasses : ∀ c ∈ classes, c.Known) (m : MethodBody)
    (hmethod : ∃ n s, m.method = some n ∧ n.signature = some s ∧ s.known = true)
    (h : m.WellTyped classes) (place cls : Text) : m.issues place cls = [] := by
  obtain ⟨m, params, body⟩ := m
  obtain ⟨⟨owner, index, name, signature⟩, sig, rfl, rfl, hknown⟩ := hmethod
  obtain ⟨n, sig', ⟨⟩, ⟨⟩, hparams, hbody⟩ := h
  rw [MethodBody.issues, hparams.paramIssues_eq_nil hknown,
    Stmt.WellTypedAll.issuesOfAll_eq_nil hclasses body hbody, List.append_nil]

theorem Stmt.WellTypedAll.issuesOfAll_eq_nil (hclasses : ∀ c ∈ classes, c.Known) (body : List Stmt)
    {function : Option Signature} (h : Stmt.WellTypedAll classes function body) (place : Text)
    (n : Nat) : Stmt.issuesOfAll place n body = [] := by
  cases body with
  | nil => rfl
  | cons s rest =>
    rw [Stmt.issuesOfAll, Stmt.WellTyped.issues_eq_nil hclasses s h.1,
      Stmt.WellTypedAll.issuesOfAll_eq_nil hclasses rest h.2, List.append_nil]

theorem MethodBody.WellTypedAll.issuesOfAll_eq_nil (hclasses : ∀ c ∈ classes, c.Known)
    (bodies : List MethodBody)
    (hmethods : ∀ m ∈ bodies.map MethodBody.method,
      ∃ n s, m = some n ∧ n.signature = some s ∧ s.known = true)
    (h : MethodBody.WellTypedAll classes bodies) (place cls : Text) :
    MethodBody.issuesOfAll place cls bodies = [] := by
  cases bodies with
  | nil => rfl
  | cons m rest =>
    rw [List.map_cons, List.forall_mem_cons] at hmethods
    rw [MethodBody.issuesOfAll, MethodBody.WellTyped.issues_eq_nil hclasses m hmethods.1 h.1,
      MethodBody.WellTypedAll.issuesOfAll_eq_nil hclasses rest hmethods.2 h.2, List.append_nil]

end

end Rules

section Simplify

namespace Fold

variable {op : TokenKind} {x y e : Expr}

theorem comparison_isLiteral {o : Ordering} (h : comparison op o = some e) : e.isLiteral = true := by
  unfold comparison at h
  split at h <;> cases h <;> rfl

theorem finite_isLiteral {a : Binary64} (h : finite a = some e) : e.isLiteral = true := by
  obtain ⟨-, ⟨⟩⟩ := Option.ite_none_right_eq_some.mp h
  rfl

theorem map_int_isLiteral {r : Option Int64} (h : r.map Expr.int = some e) : e.isLiteral = true := by
  obtain ⟨n, -, rfl⟩ := Option.map_eq_some_iff.mp h
  rfl

/-- Folding leads to constants. -/
theorem binary_isLiteral (h : binary op x y = some e) : e.isLiteral = true := by
  unfold binary at h
  split at h
  · unfold ints at h
    split at h
    iterate 6 exact map_int_isLiteral h
    exact comparison_isLiteral h
  · unfold floats at h
    split at h
    iterate 6 exact finite_isLiteral h
    exact comparison_isLiteral h
  · unfold strings at h
    split at h
    · cases h
      rfl
    · exact comparison_isLiteral h
  · unfold bools at h
    split at h <;> cases h <;> rfl
  · cases h

theorem unary_isLiteral (h : unary op x = some e) : e.isLiteral = true := by
  unfold unary at h
  split at h
  · exact map_int_isLiteral (Option.ite_none_right_eq_some.mp h).2
  · obtain ⟨-, ⟨⟩⟩ := Option.ite_none_right_eq_some.mp h
    rfl
  · obtain ⟨-, ⟨⟩⟩ := Option.ite_none_right_eq_some.mp h
    rfl
  · cases h

end Fold

namespace Expr

variable {op : TokenKind} {x y e : Expr} {type : Ty}

theorem issues_of_isLiteral (h : e.isLiteral = true) : e.issues place = [] := by
  cases e with
  | int | float | string | bool => rfl
  | _ => cases h

theorem logical?_cases (h : logical? op x y = some e) : e = x ∨ e = y := by
  unfold logical? at h
  grind

theorem simplifiedBinary_issues (h : (binary op x y type).issues place = []) :
    (simplifiedBinary op x y type).issues place = [] := by
  have hparts := h
  simp only [issues, List.append_eq_nil_iff, Issue.when_eq_nil, Bool.not_eq_false'] at hparts
  obtain ⟨⟨htype, hx⟩, hy⟩ := hparts
  unfold simplifiedBinary
  split
  · rename_i e hlogical
    rcases logical?_cases hlogical with rfl | rfl
    · exact hx
    · exact hy
  · split
    · cases hfold : Fold.binary op x y with
      | none => exact h
      | some e => exact issues_of_isLiteral (Fold.binary_isLiteral hfold)
    · cases hrule : algebraic? op x y type with
      | none => exact h
      | some e =>
        cases algebraic?_identity hrule with
        | rightZero | rightOne | leftNothing | powerOfOne => exact hx
        | leftZero | leftOne | rightNothing => exact hy
        | opposite =>
          simp only [Option.getD_some, issues, htype, hy]
          rfl
        | zeroPower =>
          rw [Option.getD_some, oneOf]
          split <;> rfl

theorem simplifiedUnary_issues (h : (unary op x type).issues place = []) :
    (simplifiedUnary op x type).issues place = [] := by
  unfold simplifiedUnary
  cases hfold : Fold.unary op x with
  | none => exact h
  | some e => exact issues_of_isLiteral (Fold.unary_isLiteral hfold)

theorem simplifiedConditional_issues {test consequent alternate : Expr}
    (h : (conditional test consequent alternate type).issues place = []) :
    (simplifiedConditional test consequent alternate type).issues place = [] := by
  have hparts := h
  simp only [issues, List.append_eq_nil_iff] at hparts
  unfold simplifiedConditional
  split
  · exact hparts.1.2
  · exact hparts.2
  · exact h

mutual

/-- Simplifying an expression without issues leads to one without issues, at any place. -/
theorem issues_simplify (e : Expr) {place : Text} (h : e.issues place = []) (place' : Text) :
    e.simplify.issues place' = [] := by
  cases e with
  | missing => cases h
  | int | float | string | bool => rfl
  | var | function | cls | self | emptyArray =>
    simp only [issues, Issue.when_eq_nil] at h
    simpa only [simplify, issues, Issue.when_eq_nil] using h
  | unary op operand type =>
    simp only [issues, List.append_eq_nil_iff, Issue.when_eq_nil] at h
    refine simplifiedUnary_issues ?_
    simp only [issues, List.append_eq_nil_iff, Issue.when_eq_nil]
    exact ⟨h.1, issues_simplify operand h.2 place'⟩
  | binary op left right type =>
    simp only [issues, List.append_eq_nil_iff, Issue.when_eq_nil] at h
    refine simplifiedBinary_issues ?_
    simp only [issues, List.append_eq_nil_iff, Issue.when_eq_nil]
    exact ⟨⟨h.1.1, issues_simplify left h.1.2 place'⟩, issues_simplify right h.2 place'⟩
  | conditional test consequent alternate type =>
    simp only [issues, List.append_eq_nil_iff, Issue.when_eq_nil] at h
    refine simplifiedConditional_issues ?_
    simp only [issues, List.append_eq_nil_iff, Issue.when_eq_nil]
    exact ⟨⟨⟨h.1.1.1, issues_simplify test h.1.1.2 place'⟩,
      issues_simplify consequent h.1.2 place'⟩, issues_simplify alternate h.2 place'⟩
  | call callee args type =>
    simp only [issues, List.append_eq_nil_iff, Issue.when_eq_nil] at h
    simp only [simplify, issues, List.append_eq_nil_iff, Issue.when_eq_nil]
    exact ⟨⟨h.1.1, issues_simplify callee h.1.2 place'⟩, issuesOfAll_simplify args h.2 place' _ 0⟩
  | index object i type =>
    simp only [issues, List.append_eq_nil_iff, Issue.when_eq_nil] at h
    simp only [simplify, issues, List.append_eq_nil_iff, Issue.when_eq_nil]
    exact ⟨⟨h.1.1, issues_simplify object h.1.2 place'⟩, issues_simplify i h.2 place'⟩
  | member object field method type =>
    simp only [issues, List.append_eq_nil_iff, Issue.when_eq_nil] at h
    simp only [simplify, issues, List.append_eq_nil_iff, Issue.when_eq_nil]
    exact ⟨h.1, issues_simplify object h.2 place'⟩
  | array elements type =>
    simp only [issues, List.append_eq_nil_iff, Issue.when_eq_nil] at h
    simp only [simplify, issues, List.append_eq_nil_iff, Issue.when_eq_nil]
    refine ⟨⟨h.1.1, ?_⟩, issuesOfAll_simplify elements h.2 place' _ 0⟩
    cases elements with
    | nil => exact h.1.2
    | cons => rfl

theorem issuesOfAll_simplify (es : List Expr) {place label : Text} {n : Nat}
    (h : issuesOfAll place label n es = []) (place' label' : Text) (n' : Nat) :
    issuesOfAll place' label' n' (simplifyAll es) = [] := by
  cases es with
  | nil => rfl
  | cons e rest =>
    simp only [issuesOfAll, List.append_eq_nil_iff] at h
    rw [simplifyAll, issuesOfAll, issues_simplify e h.1, issuesOfAll_simplify rest h.2,
      List.append_nil]

end

end Expr

theorem Stmt.issuesOfAll_append (place : Text) (n : Nat) (body rest : List Stmt) :
    Stmt.issuesOfAll place n (body ++ rest) =
      Stmt.issuesOfAll place n body ++ Stmt.issuesOfAll place (n + body.length) rest := by
  induction body generalizing n with
  | nil => rfl
  | cons s body ih =>
    have hnumber : n + 1 + body.length = n + (s :: body).length := by
      rw [List.length_cons, Nat.add_assoc, Nat.add_comm 1]
    simp only [List.cons_append, Stmt.issuesOfAll, ih, hnumber, List.append_assoc]

theorem Stmt.issuesOfAll_singleton {s : Stmt} (h : ∀ place, s.issues place = []) (place : Text)
    (n : Nat) : Stmt.issuesOfAll place n [s] = [] := by
  rw [Stmt.issuesOfAll, h]
  rfl

theorem MethodBody.length_simplifyAll (bodies : List MethodBody) :
    (MethodBody.simplifyAll bodies).length = bodies.length := by
  induction bodies with
  | nil => rfl
  | cons m rest ih => rw [MethodBody.simplifyAll, List.length_cons, List.length_cons, ih]

mutual

/-- What a statement without issues simplifies to has no issues, at any place. -/
theorem Stmt.issues_simplify (s : Stmt) {place : Text} (h : s.issues place = []) (place' : Text)
    (n : Nat) : Stmt.issuesOfAll place' n s.simplify = [] := by
  cases s with
  | missing | missingCall => cases h
  | declare v init =>
    simp only [Stmt.issues, List.append_eq_nil_iff, Issue.when_eq_nil] at h
    refine Stmt.issuesOfAll_singleton (fun place => ?_) place' n
    simp only [Stmt.issues, List.append_eq_nil_iff, Issue.when_eq_nil]
    exact ⟨h.1, init.issues_simplify h.2 place⟩
  | function f params body =>
    simp only [Stmt.issues] at h
    split at h
    · simp only [List.append_eq_nil_iff, paramIssues_eq_nil_iff] at h
      refine Stmt.issuesOfAll_singleton (fun place => ?_) place' n
      simp only [Stmt.issues, List.append_eq_nil_iff, paramIssues_eq_nil_iff]
      exact ⟨h.1, Stmt.issuesOfAll_simplify body h.2 _ 0⟩
    · cases h
  | cls c methods =>
    cases c with
    | none => cases h
    | some c =>
      simp only [Stmt.issues, List.append_eq_nil_iff, classIssues_eq_nil_iff] at h
      refine Stmt.issuesOfAll_singleton (fun place => ?_) place' n
      simp only [Stmt.issues, List.append_eq_nil_iff, classIssues_eq_nil_iff,
        MethodBody.length_simplifyAll]
      exact ⟨h.1, MethodBody.issuesOfAll_simplify methods h.2 _ _⟩
  | assign target source =>
    simp only [Stmt.issues, List.append_eq_nil_iff] at h
    rw [Stmt.simplify]
    split
    · rfl
    · refine Stmt.issuesOfAll_singleton (fun place => ?_) place' n
      rw [Stmt.issues, target.issues_simplify h.1, source.issues_simplify h.2, List.append_nil]
  | bump op target =>
    refine Stmt.issuesOfAll_singleton (fun place => ?_) place' n
    exact target.issues_simplify h place
  | branch test consequent alternate =>
    simp only [Stmt.issues, List.append_eq_nil_iff] at h
    rw [Stmt.simplify]
    split
    · exact Stmt.issuesOfAll_simplify consequent h.1.2 _ _
    · exact Stmt.issuesOfAll_simplify alternate h.2 _ _
    · refine Stmt.issuesOfAll_singleton (fun place => ?_) place' n
      rw [Stmt.issues, test.issues_simplify h.1.1, Stmt.issuesOfAll_simplify consequent h.1.2,
        Stmt.issuesOfAll_simplify alternate h.2, List.append_nil, List.append_nil]
  | shortBranch test consequent =>
    simp only [Stmt.issues, List.append_eq_nil_iff] at h
    rw [Stmt.simplify]
    split
    · exact Stmt.issuesOfAll_simplify consequent h.2 _ _
    · rfl
    · refine Stmt.issuesOfAll_singleton (fun place => ?_) place' n
      rw [Stmt.issues, test.issues_simplify h.1, Stmt.issuesOfAll_simplify consequent h.2,
        List.append_nil]
  | loop test body =>
    simp only [Stmt.issues, List.append_eq_nil_iff] at h
    rw [Stmt.simplify]
    split
    · rfl
    · refine Stmt.issuesOfAll_singleton (fun place => ?_) place' n
      rw [Stmt.issues, test.issues_simplify h.1, Stmt.issuesOfAll_simplify body h.2, List.append_nil]
  | forEach v collection body =>
    simp only [Stmt.issues, List.append_eq_nil_iff, Issue.when_eq_nil] at h
    rw [Stmt.simplify]
    split
    · rfl
    · refine Stmt.issuesOfAll_singleton (fun place => ?_) place' n
      simp only [Stmt.issues, List.append_eq_nil_iff, Issue.when_eq_nil]
      exact ⟨⟨h.1.1, collection.issues_simplify h.1.2 _⟩, Stmt.issuesOfAll_simplify body h.2 _ 0⟩
  | leave => rfl
  | ret value =>
    refine Stmt.issuesOfAll_singleton (fun place => Stmt.issues_ret.mpr ?_) place' n
    rcases Stmt.issues_ret.mp h with rfl | hvalue
    · exact .inl rfl
    · exact .inr (value.issues_simplify hvalue place)
  | print value =>
    refine Stmt.issuesOfAll_singleton (fun place => ?_) place' n
    exact value.issues_simplify h place
  | call callee args type =>
    refine Stmt.issuesOfAll_singleton (fun place => ?_) place' n
    exact (Expr.call callee args type).issues_simplify h place

theorem MethodBody.issues_simplify (m : MethodBody) {place cls : Text}
    (h : m.issues place cls = []) (place' cls' : Text) : m.simplify.issues place' cls' = [] := by
  obtain ⟨m, params, body⟩ := m
  simp only [MethodBody.issues] at h
  split at h
  · simp only [List.append_eq_nil_iff, paramIssues_eq_nil_iff] at h
    simp only [MethodBody.simplify, MethodBody.issues, List.append_eq_nil_iff, paramIssues_eq_nil_iff]
    exact ⟨h.1, Stmt.issuesOfAll_simplify body h.2 _ 0⟩
  · cases h

theorem Stmt.issuesOfAll_simplify (body : List Stmt) {place : Text} {n : Nat}
    (h : Stmt.issuesOfAll place n body = []) (place' : Text) (n' : Nat) :
    Stmt.issuesOfAll place' n' (Stmt.simplifyAll body) = [] := by
  cases body with
  | nil => rfl
  | cons s rest =>
    simp only [Stmt.issuesOfAll, List.append_eq_nil_iff] at h
    rw [Stmt.simplifyAll, Stmt.issuesOfAll_append, Stmt.issues_simplify s h.1,
      Stmt.issuesOfAll_simplify rest h.2, List.append_nil]

theorem MethodBody.issuesOfAll_simplify (bodies : List MethodBody) {place cls : Text}
    (h : MethodBody.issuesOfAll place cls bodies = []) (place' cls' : Text) :
    MethodBody.issuesOfAll place' cls' (MethodBody.simplifyAll bodies) = [] := by
  cases bodies with
  | nil => rfl
  | cons m rest =>
    simp only [MethodBody.issuesOfAll, List.append_eq_nil_iff] at h
    rw [MethodBody.simplifyAll, MethodBody.issuesOfAll, MethodBody.issues_simplify m h.1,
      MethodBody.issuesOfAll_simplify rest h.2, List.append_nil]

end

/-- A program that is checked without an issue is there, and so is all of what simplifying makes of it,
whether or not its parts fit each other's types. -/
theorem issues_simplified {program : Option Program} (h : issues program = []) :
    ∃ p, program = some p ∧ issues (some p.simplify) = [] := by
  cases program with
  | none => cases h
  | some p => exact ⟨p, rfl, Stmt.issuesOfAll_simplify p h "program" 0⟩

/-- Operands of types that do not fit: a string is subtracted from a number and raised to a power. A
branch and a loop are taken apart, and an assignment is dropped. -/
private def misfitting : Program :=
  let x : Expr := .var (some ⟨9, "x", .roast, false, false⟩)
  [.shortBranch (.unary .kwNot (.bool false) .roast)
      [.assign x (.binary .minus (.int 0) x .boolean), .assign x (.binary .plus x (.int 0) .roast)],
    .forEach (some ⟨10, "y", .pump, false, false⟩) (.emptyArray .none) [.leave],
    .ret (.binary .power x (.int 0) .affogato)]

theorem issues_simplified_misfitting :
    issues (some misfitting) = [] ∧
      misfitting.simplify =
        [.assign (.var (some ⟨9, "x", .roast, false, false⟩))
            (.unary .minus (.var (some ⟨9, "x", .roast, false, false⟩)) .boolean),
          .ret (.float .one)] ∧
      issues (some misfitting.simplify) = [] := by
  have hvalid : issues (some misfitting) = [] := rfl
  obtain ⟨p, hp, hsimple⟩ := issues_simplified hvalid
  cases hp
  exact ⟨hvalid, rfl, hsimple⟩

end Simplify

end PeakLang.Typed
