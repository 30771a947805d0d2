import PeakLang.Proofs.Typed.Calls

namespace PeakLang.Typed

/-- The type of an operation whose left operand has a type: a sum, a product and the like have the type
of their operands, everything else is a truth value. -/
def resultOf (op : TokenKind) (t : Ty) : Ty :=
  match op with
  | .plus | .minus | .star | .slash | .percent | .power => t
  | _ => .boolean

variable {op : TokenKind}

theorem BinaryRule.eq_resultOf {t u r : Ty} (h : BinaryRule op t u r) :
    r = resultOf op t := by
  cases h with
  | logical hop | equality hop => rcases hop with rfl | rfl <;> rfl
  | order hop => rcases hop with rfl | rfl | rfl | rfl <;> rfl
  | sum => rfl
  | arithmetic hop => rcases hop with rfl | rfl | rfl | rfl | rfl <;> rfl

theorem BinaryRule.operands_eq {t u r : Ty} (h : BinaryRule op t u r) : t = u := by
  cases h with
  | logical => rfl
  | equality _ hsame | order _ _ hsame | sum _ hsame | arithmetic _ _ hsame =>
    exact Ty.equivalent_iff_eq.mp hsame

/-- `and` and `or` give what they take. -/
theorem BinaryRule.eq_left {t u r : Ty} (h : BinaryRule op t u r) (hop : op = .kwAnd ∨ op = .kwOr) :
    r = t := by
  cases h with
  | logical | sum | arithmetic => rfl
  | equality hop' => rcases hop with rfl | rfl <;> simp at hop'
  | order hop' => rcases hop with rfl | rfl <;> simp at hop'

/-- A difference and a power are of numbers; a sum may also be one of strings. -/
theorem BinaryRule.isNumeric {t u r : Ty} (h : BinaryRule op t u r)
    (hop : op = .minus ∨ op = .power) : t.isNumeric = true := by
  cases h with
  | arithmetic _ hnumber => exact hnumber
  | sum => simp at hop
  | logical hop' | equality hop' | order hop' => rcases hop with rfl | rfl <;> simp at hop'

theorem UnaryRule.eq_operand {t r : Ty} (h : UnaryRule op t r) : r = t := by
  cases h <;> rfl

namespace Fold

variable {op : TokenKind} {x y e : Expr}

/-- A comparison is folded only where the operator is one, and then to a truth value. -/
theorem comparison_type {o : Ordering} (h : comparison op o = some e) (t : Ty) :
    e.type = resultOf op t := by
  unfold comparison at h
  split at h <;> cases h <;> rfl

theorem map_int_type {r : Option Int64} (h : r.map Expr.int = some e) : e.type = .pump := by
  obtain ⟨n, -, rfl⟩ := Option.map_eq_some_iff.mp h
  rfl

theorem finite_type {a : Binary64} (h : finite a = some e) : e.type = .affogato := by
  obtain ⟨-, ⟨⟩⟩ := Option.ite_none_right_eq_some.mp h
  rfl

/-- Folding leads to a constant of the type that the operation has. -/
theorem binary_type (h : binary op x y = some e) : e.type = resultOf op x.type := by
  unfold binary at h
  split at h
  · unfold ints at h
    split at h
    iterate 6 exact map_int_type h
    exact comparison_type h _
  · unfold floats at h
    split at h
    iterate 6 exact finite_type h
    exact comparison_type h _
  · unfold strings at h
    split at h
    · cases h
      rfl
    · exact comparison_type h _
  · unfold bools at h
    split at h <;> cases h <;> rfl
  · cases h

theorem unary_type (h : unary op x = some e) : e.type = x.type := by
  unfold unary at h
  split at h
  · exact map_int_type (Option.ite_none_right_eq_some.mp h).2
  · obtain ⟨-, ⟨⟩⟩ := Option.ite_none_right_eq_some.mp h
    rfl
  · obtain ⟨-, ⟨⟩⟩ := Option.ite_none_right_eq_some.mp h
    rfl
  · cases h

end Fold

namespace Expr

variable {classes : List Class} {op : TokenKind} {x y e e' : Expr} {type : Ty}

theorem wellTyped_of_isLiteral (h : e.isLiteral = true) : e.WellTyped classes := by
  cases e with
  | int | float | string | bool => trivial
  | _ => cases h

/-- What an expression may be replaced by: it obeys the rules and has the same type. -/
structure Replaces (classes : List Class) (e e' : Expr) : Prop where
  rules : e'.WellTyped classes
  type_eq : e'.type = e.type

theorem logical?_operator (h : logical? op x y = some e) : op = .kwAnd ∨ op = .kwOr := by
  unfold logical? at h
  split at h
  · exact .inr rfl
  · exact .inl rfl
  · cases h

theorem logical?_replaces (hx : x.WellTyped classes) (hy : y.WellTyped classes)
    (hrule : BinaryRule op x.type y.type type) (h : logical? op x y = some e) :
    Replaces classes (.binary op x y type) e := by
  have hsame : y.type = x.type := hrule.operands_eq.symm
  have hleft : type = x.type := hrule.eq_left (logical?_operator h)
  rcases logical?_cases h with rfl | rfl
  · exact ⟨hx, hleft.symm⟩
  · exact ⟨hy, hsame.trans hleft.symm⟩

/-- The constant one of the type of a number has that type. -/
theorem oneOf_type (h : type.isNumeric = true) : (oneOf type).type = type := by
  unfold oneOf
  split
  case isTrue hfloat => exact (Ty.isPrim_iff.mp hfloat).symm
  case isFalse hfloat =>
    have hpump : type.isPrim .pump = true := by
      rw [Ty.isNumeric, Bool.or_eq_true] at h
      exact h.resolve_right hfloat
    exact (Ty.isPrim_iff.mp hpump).symm

theorem Identity.replaces (hx : x.WellTyped classes) (hy : y.WellTyped classes)
    (hrule : BinaryRule op x.type y.type type) (h : Identity op x y type e) :
    Replaces classes (.binary op x y type) e := by
  have hsame : y.type = x.type := hrule.operands_eq.symm
  have hresult : type = resultOf op x.type := hrule.eq_resultOf
  cases h with
  | rightZero hop =>
    rcases hop with rfl | rfl
    · exact ⟨hx, hresult.symm⟩
    · exact ⟨hx, hresult.symm⟩
  | rightOne hop =>
    rcases hop with rfl | rfl | rfl
    · exact ⟨hx, hresult.symm⟩
    · exact ⟨hx, hresult.symm⟩
    · exact ⟨hx, hresult.symm⟩
  | leftNothing hop =>
    rcases hop with rfl | rfl
    · exact ⟨hx, hresult.symm⟩
    · exact ⟨hx, hresult.symm⟩
  | powerOfOne => exact ⟨hx, hresult.symm⟩
  | leftZero | leftOne | rightNothing => exact ⟨hy, hsame.trans hresult.symm⟩
  | opposite =>
    have hneg : UnaryRule .minus y.type type := by
      rw [hresult, hsame]
      exact .neg (hrule.isNumeric (.inl rfl))
    exact ⟨⟨hy, hneg⟩, rfl⟩
  | zeroPower =>
    refine ⟨wellTyped_of_isLiteral ?_, oneOf_type ?_⟩
    · unfold oneOf
      split <;> rfl
    · rw [hresult]
      exact hrule.isNumeric (.inr rfl)

theorem simplifiedBinary_replaces (hx : x.WellTyped classes) (hy : y.WellTyped classes)
    (hrule : BinaryRule op x.type y.type type) :
    Replaces classes (.binary op x y type) (simplifiedBinary op x y type) := by
  have hself : Replaces classes (.binary op x y type) (.binary op x y type) := ⟨⟨hx, hy, hrule⟩, rfl⟩
  unfold simplifiedBinary
  split
  · exact logical?_replaces hx hy hrule ‹_›
  · split
    · cases hfold : Fold.binary op x y with
      | none => exact hself
      | some e =>
        have htype : e.type = type := (Fold.binary_type hfold).trans hrule.eq_resultOf.symm
        exact ⟨wellTyped_of_isLiteral (Fold.binary_isLiteral hfold), htype⟩
    · cases hidentity : algebraic? op x y type with
      | none => exact hself
      | some e => exact (algebraic?_identity hidentity).replaces hx hy hrule

theorem simplifiedUnary_replaces (hx : x.WellTyped classes) (hrule : UnaryRule op x.type type) :
    Replaces classes (.unary op x type) (simplifiedUnary op x type) := by
  unfold simplifiedUnary
  cases hfold : Fold.unary op x with
  | none => exact ⟨⟨hx, hrule⟩, rfl⟩
  | some e =>
    have htype : e.type = type := (Fold.unary_type hfold).trans hrule.eq_operand.symm
    exact ⟨wellTyped_of_isLiteral (Fold.unary_isLiteral hfold), htype⟩

theorem simplifiedConditional_replaces {test consequent alternate : Expr}
    (h : (conditional test consequent alternate type).WellTyped classes) :
    Replaces classes (.conditional test consequent alternate type)
      (simplifiedConditional test consequent alternate type) := by
  have hparts := h
  obtain ⟨-, hconsequent, halternate, -, hsame, rfl⟩ := hparts
  unfold simplifiedConditional
  split
  · exact ⟨hconsequent, rfl⟩
  · exact ⟨halternate, (Ty.equivalent_iff_eq.mp hsame).symm⟩
  · exact ⟨h, rfl⟩

mutual

/-- Simplifying an expression keeps the rules and the type. -/
theorem simplify_replaces (e : Expr) (h : e.WellTyped classes) : Replaces classes e e.simplify := by
  cases e with
  | unary op operand type =>
    obtain ⟨hoperand, hrule⟩ := h
    have ih := simplify_replaces operand hoperand
    rw [← ih.type_eq] at hrule
    have hsimplified := simplifiedUnary_replaces ih.rules hrule
    exact ⟨hsimplified.rules, hsimplified.type_eq⟩
  | binary op left right type =>
    obtain ⟨hleft, hright, hrule⟩ := h
    have ihl := simplify_replaces left hleft
    have ihr := simplify_replaces right hright
    rw [← ihl.type_eq, ← ihr.type_eq] at hrule
    have hsimplified := simplifiedBinary_replaces ihl.rules ihr.rules hrule
    exact ⟨hsimplified.rules, hsimplified.type_eq⟩
  | conditional test consequent alternate type =>
    obtain ⟨htest, hconsequent, halternate, hboolean, hsame, htype⟩ := h
    have iht := simplify_replaces test htest
    have ihc := simplify_replaces consequent hconsequent
    have iha := simplify_replaces alternate halternate
    rw [← iht.type_eq] at hboolean
    rw [← ihc.type_eq, ← iha.type_eq] at hsame
    rw [← ihc.type_eq] at htype
    have hsimplified := simplifiedConditional_replaces
      ⟨iht.rules, ihc.rules, iha.rules, hboolean, hsame, htype⟩
    exact ⟨hsimplified.rules, hsimplified.type_eq⟩
  | call callee args type =>
    obtain ⟨hcallee, hargs, hrule⟩ := h
    have ihc := simplify_replaces callee hcallee
    obtain ⟨hall, htypes⟩ := simplifyAll_replaces args hargs
    rw [← ihc.type_eq, ← htypes] at hrule
    exact ⟨⟨ihc.rules, hall, hrule⟩, rfl⟩
  | index object i type =>
    obtain ⟨hobject, hindex, harray, hint⟩ := h
    have iho := simplify_replaces object hobject
    have ihi := simplify_replaces i hindex
    exact ⟨⟨iho.rules, ihi.rules, iho.type_eq.trans harray, ihi.type_eq.trans hint⟩, rfl⟩
  | member object field method type =>
    obtain ⟨hobject, hrule⟩ := h
    have iho := simplify_replaces object hobject
    rw [← iho.type_eq] at hrule
    exact ⟨⟨iho.rules, hrule⟩, rfl⟩
  | array elements type =>
    obtain ⟨hne, helements, base, hbase, hsame⟩ := h
    obtain ⟨hall, htypes⟩ := simplifyAll_replaces elements helements
    refine ⟨⟨?_, hall, base, hbase, fun e he => ?_⟩, rfl⟩
    · rintro hnil
      rw [hnil, List.map_nil, eq_comm, List.map_eq_nil_iff] at htypes
      exact hne htypes
    · have hmem : e.type ∈ elements.map Expr.type := htypes ▸ List.mem_map_of_mem he
      obtain ⟨e₀, he₀, heq⟩ := List.mem_map.mp hmem
      exact heq ▸ hsame e₀ he₀
  | _ => exact ⟨h, rfl⟩

theorem simplifyAll_replaces (es : List Expr) (h : WellTypedAll classes es) :
    WellTypedAll classes (simplifyAll es) ∧ (simplifyAll es).map Expr.type = es.map Expr.type := by
  cases es with
  | nil => exact ⟨trivial, rfl⟩
  | cons e rest =>
    have ihe := simplify_replaces e h.1
    obtain ⟨hall, htypes⟩ := simplifyAll_replaces rest h.2
    refine ⟨⟨ihe.rules, hall⟩, ?_⟩
    rw [simplifyAll, List.map_cons, List.map_cons, ihe.type_eq, htypes]

end

/-- What may be assigned to is simplified in its parts only. -/
theorem IsPlace.simplify (h : e.IsPlace) : e.simplify.IsPlace := by
  cases e with
  | var | function => exact h
  | index => trivial
  | member object field method type =>
    cases field <;> cases method <;> exact h
  | _ => cases h

mutual

/-- An expression and the expressions in it. -/
def parts : Expr → List Expr
  | unary op x type => .unary op x type :: x.parts
  | binary op x y type => .binary op x y type :: (x.parts ++ y.parts)
  | conditional test consequent alternate type =>
    .conditional test consequent alternate type ::
      (test.parts ++ (consequent.parts ++ alternate.parts))
  | call callee args type => .call callee args type :: (callee.parts ++ partsOfAll args)
  | index object i type => .index object i type :: (object.parts ++ i.parts)
  | member object field method type => .member object field method type :: object.parts
  | array elements type => .array elements type :: partsOfAll elements
  | e => [e]

def partsOfAll : List Expr → List Expr
  | [] => []
  | e :: rest => e.parts ++ partsOfAll rest

end

mutual

/-- The parts of an expression that obeys the rules obey them, too. -/
theorem WellTyped.parts (e : Expr) (h : e.WellTyped classes) :
    ∀ x ∈ e.parts, x.WellTyped classes := by
  cases e with
  | unary op operand type =>
    exact List.forall_mem_cons.mpr ⟨h, WellTyped.parts operand h.1⟩
  | binary op left right type =>
    refine List.forall_mem_cons.mpr ⟨h, List.forall_mem_append.mpr ?_⟩
    exact ⟨WellTyped.parts left h.1, WellTyped.parts right h.2.1⟩
  | conditional test consequent alternate type =>
    refine List.forall_mem_cons.mpr ⟨h, List.forall_mem_append.mpr ?_⟩
    exact ⟨WellTyped.parts test h.1, List.forall_mem_append.mpr
      ⟨WellTyped.parts consequent h.2.1, WellTyped.parts alternate h.2.2.1⟩⟩
  | call callee args type =>
    refine List.forall_mem_cons.mpr ⟨h, List.forall_mem_append.mpr ?_⟩
    exact ⟨WellTyped.parts callee h.1, WellTypedAll.parts args h.2.1⟩
  | index object i type =>
    refine List.forall_mem_cons.mpr ⟨h, List.forall_mem_append.mpr ?_⟩
    exact ⟨WellTyped.parts object h.1, WellTyped.parts i h.2.1⟩
  | member object field method type =>
    exact List.forall_mem_cons.mpr ⟨h, WellTyped.parts object h.1⟩
  | array elements type =>
    exact List.forall_mem_cons.mpr ⟨h, WellTypedAll.parts elements h.2.1⟩
  | _ => exact List.forall_mem_singleton.mpr h

theorem WellTypedAll.parts (es : List Expr) (h : WellTypedAll classes es) :
    ∀ x ∈ partsOfAll es, x.WellTyped classes := by
  cases es with
  | nil => exact fun _ hx => absurd hx List.not_mem_nil
  | cons e rest =>
    exact List.forall_mem_append.mpr ⟨WellTyped.parts e h.1, WellTypedAll.parts rest h.2⟩

end

end Expr

section Statements

variable {classes : List Class} {function : Option Signature}

theorem Stmt.wellTypedAll_append {ss ts : List Stmt} (hs : Stmt.WellTypedAll classes function ss)
    (ht : Stmt.WellTypedAll classes function ts) : Stmt.WellTypedAll classes function (ss ++ ts) := by
  induction ss with
  | nil => exact ht
  | cons s rest ih => exact ⟨hs.1, ih hs.2⟩

theorem Stmt.wellTypedAll_singleton {s : Stmt} (h : s.WellTyped classes function) :
    Stmt.WellTypedAll classes function [s] :=
  ⟨h, trivial⟩

theorem ReturnRule.simplify {value : Expr} (h : ReturnRule classes function value) :
    ReturnRule classes function value.simplify := by
  obtain ⟨s, hs, ⟨hnone, rfl⟩ | ⟨hresult, hvalue, hfits⟩⟩ := h
  · exact ⟨s, hs, .inl ⟨hnone, rfl⟩⟩
  · have ih := value.simplify_replaces hvalue
    rw [← ih.type_eq] at hfits
    exact ⟨s, hs, .inr ⟨hresult, ih.rules, hfits⟩⟩

theorem MethodBody.map_method_simplifyAll (bodies : List MethodBody) :
    (MethodBody.simplifyAll bodies).map MethodBody.method = bodies.map MethodBody.method := by
  induction bodies with
  | nil => rfl
  | cons m rest ih =>
    obtain ⟨method, params, body⟩ := m
    rw [MethodBody.simplifyAll, List.map_cons, List.map_cons, ih]
    rfl

mutual

/-- What a statement that obeys the rules simplifies to obeys them, too. -/
theorem Stmt.WellTyped.simplify (s : Stmt) {function : Option Signature}
    (h : s.WellTyped classes function) : Stmt.WellTypedAll classes function s.simplify := by
  cases s with
  | missing | missingCall => cases h
  | declare v init =>
    obtain ⟨hinit, w, hw, htype⟩ := h
    have ih := init.simplify_replaces hinit
    exact Stmt.wellTypedAll_singleton ⟨ih.rules, w, hw, htype.trans ih.type_eq.symm⟩
  | function f params body =>
    obtain ⟨g, sig, hg, hsig, hknown, hparams, hbody⟩ := h
    exact Stmt.wellTypedAll_singleton
      ⟨g, sig, hg, hsig, hknown, hparams, Stmt.WellTypedAll.simplify body hbody⟩
  | cls c methods =>
    obtain ⟨k, hk, hc, hknown, hmethods, hbodies⟩ := h
    rw [← MethodBody.map_method_simplifyAll] at hmethods
    exact Stmt.wellTypedAll_singleton
      ⟨k, hk, hc, hknown, hmethods, MethodBody.WellTypedAll.simplify methods hbodies⟩
  | assign target source =>
    obtain ⟨htarget, hsource, hplace, hfits⟩ := h
    have iht := target.simplify_replaces htarget
    have ihs := source.simplify_replaces hsource
    rw [← iht.type_eq, ← ihs.type_eq] at hfits
    rw [Stmt.simplify]
    split
    case isTrue => trivial
    case isFalse =>
      exact Stmt.wellTypedAll_singleton ⟨iht.rules, ihs.rules, hplace.simplify, hfits⟩
  | bump op target =>
    obtain ⟨htarget, hplace, hint⟩ := h
    have iht := target.simplify_replaces htarget
    exact Stmt.wellTypedAll_singleton ⟨iht.rules, hplace.simplify, iht.type_eq.trans hint⟩
  | branch test consequent alternate =>
    obtain ⟨htest, hboolean, hconsequent, halternate⟩ := h
    have iht := test.simplify_replaces htest
    have ihc := Stmt.WellTypedAll.simplify consequent hconsequent
    have iha := Stmt.WellTypedAll.simplify alternate halternate
    rw [Stmt.simplify]
    split
    case h_1 => exact ihc
    case h_2 => exact iha
    case h_3 =>
      exact Stmt.wellTypedAll_singleton ⟨iht.rules, iht.type_eq.trans hboolean, ihc, iha⟩
  | shortBranch test consequent =>
    obtain ⟨htest, hboolean, hconsequent⟩ := h
    have iht := test.simplify_replaces htest
    have ihc := Stmt.WellTypedAll.simplify consequent hconsequent
    rw [Stmt.simplify]
    split
    case h_1 => exact ihc
    case h_2 => trivial
    case h_3 => exact Stmt.wellTypedAll_singleton ⟨iht.rules, iht.type_eq.trans hboolean, ihc⟩
  | loop test body =>
    obtain ⟨htest, hboolean, hbody⟩ := h
    have iht := test.simplify_replaces htest
    rw [Stmt.simplify]
    split
    case h_1 => trivial
    case h_2 =>
      exact Stmt.wellTypedAll_singleton
        ⟨iht.rules, iht.type_eq.trans hboolean, Stmt.WellTypedAll.simplify body hbody⟩
  | forEach v collection body =>
    obtain ⟨hcollection, ⟨w, hw, harray⟩, hbody⟩ := h
    have ihc := collection.simplify_replaces hcollection
    rw [Stmt.simplify]
    split
    case h_1 => trivial
    case h_2 =>
      exact Stmt.wellTypedAll_singleton
        ⟨ihc.rules, ⟨w, hw, ihc.type_eq.trans harray⟩, Stmt.WellTypedAll.simplify body hbody⟩
  | leave => exact Stmt.wellTypedAll_singleton trivial
  | ret value => exact Stmt.wellTypedAll_singleton (ReturnRule.simplify h)
  | print value => exact Stmt.wellTypedAll_singleton (value.simplify_replaces h).rules
  | call callee args type =>
    exact Stmt.wellTypedAll_singleton ((Expr.call callee args type).simplify_replaces h).rules

theorem MethodBody.WellTyped.simplify (m : MethodBody) (h : m.WellTyped classes) :
    m.simplify.WellTyped classes := by
  obtain ⟨m, params, body⟩ := m
  obtain ⟨n, sig, hn, hsig, hparams, hbody⟩ := h
  exact ⟨n, sig, hn, hsig, hparams, Stmt.WellTypedAll.simplify body hbody⟩

theorem Stmt.WellTypedAll.simplify (ss : List Stmt) {function : Option Signature}
    (h : Stmt.WellTypedAll classes function ss) :
    Stmt.WellTypedAll classes function (Stmt.simplifyAll ss) := by
  cases ss with
  | nil => trivial
  | cons s rest =>
    exact Stmt.wellTypedAll_append (Stmt.WellTyped.simplify s h.1)
      (Stmt.WellTypedAll.simplify rest h.2)

theorem MethodBody.WellTypedAll.simplify (ms : List MethodBody)
    (h : MethodBody.WellTypedAll classes ms) :
    MethodBody.WellTypedAll classes (MethodBody.simplifyAll ms) := by
  cases ms with
  | nil => trivial
  | cons m rest =>
    exact ⟨MethodBody.WellTyped.simplify m h.1, MethodBody.WellTypedAll.simplify rest h.2⟩

end

/-- The expressions of a statement that obeys the rules obey them; a return may have none. -/
theorem Stmt.WellTyped.exprs {s : Stmt} (h : s.WellTyped classes function) :
    ∀ e ∈ s.exprs, e = .missing ∨ e.WellTyped classes := by
  cases s with
  | declare v init => exact List.forall_mem_singleton.mpr (.inr h.1)
  | assign target source =>
    exact List.forall_mem_cons.mpr ⟨.inr h.1, List.forall_mem_singleton.mpr (.inr h.2.1)⟩
  | bump op target => exact List.forall_mem_singleton.mpr (.inr h.1)
  | branch test consequent alternate => exact List.forall_mem_singleton.mpr (.inr h.1)
  | shortBranch test consequent => exact List.forall_mem_singleton.mpr (.inr h.1)
  | loop test body => exact List.forall_mem_singleton.mpr (.inr h.1)
  | forEach v collection body => exact List.forall_mem_singleton.mpr (.inr h.1)
  | ret value =>
    obtain ⟨sig, -, ⟨-, hmissing⟩ | ⟨-, hvalue, -⟩⟩ := h
    · exact List.forall_mem_singleton.mpr (.inl hmissing)
    · exact List.forall_mem_singleton.mpr (.inr hvalue)
  | print value => exact List.forall_mem_singleton.mpr (.inr h)
  | call callee args type => exact List.forall_mem_singleton.mpr (.inr h)
  | missing | missingCall | function | cls | leave => exact fun _ he => absurd he List.not_mem_nil

mutual

/-- The statements in a statement that obeys the rules obey them, each in the function around it. -/
theorem Stmt.WellTyped.parts (s : Stmt) {function : Option Signature}
    (h : s.WellTyped classes function) :
    ∀ t ∈ s.parts, ∃ function', t.WellTyped classes function' := by
  cases s with
  | function f params body =>
    have hself := h
    obtain ⟨g, sig, -, -, -, -, hbody⟩ := h
    exact List.forall_mem_cons.mpr ⟨⟨_, hself⟩, Stmt.WellTypedAll.parts body hbody⟩
  | cls c methods =>
    have hself := h
    obtain ⟨k, -, -, -, -, hbodies⟩ := h
    exact List.forall_mem_cons.mpr ⟨⟨function, hself⟩, MethodBody.WellTypedAll.parts methods hbodies⟩
  | branch test consequent alternate =>
    refine List.forall_mem_cons.mpr ⟨⟨_, h⟩, List.forall_mem_append.mpr ?_⟩
    exact ⟨Stmt.WellTypedAll.parts consequent h.2.2.1, Stmt.WellTypedAll.parts alternate h.2.2.2⟩
  | shortBranch test consequent =>
    exact List.forall_mem_cons.mpr ⟨⟨_, h⟩, Stmt.WellTypedAll.parts consequent h.2.2⟩
  | loop test body =>
    exact List.forall_mem_cons.mpr ⟨⟨_, h⟩, Stmt.WellTypedAll.parts body h.2.2⟩
  | forEach v collection body =>
    exact List.forall_mem_cons.mpr ⟨⟨_, h⟩, Stmt.WellTypedAll.parts body h.2.2⟩
  | _ => exact List.forall_mem_singleton.mpr ⟨_, h⟩

theorem MethodBody.WellTyped.parts (m : MethodBody) (h : m.WellTyped classes) :
    ∀ t ∈ m.parts, ∃ function', t.WellTyped classes function' := by
  obtain ⟨m, params, body⟩ := m
  obtain ⟨n, sig, -, -, -, hbody⟩ := h
  exact Stmt.WellTypedAll.parts body hbody

theorem Stmt.WellTypedAll.parts (ss : List Stmt) {function : Option Signature}
    (h : Stmt.WellTypedAll classes function ss) :
    ∀ t ∈ Stmt.partsOfAll ss, ∃ function', t.WellTyped classes function' := by
  cases ss with
  | nil => exact fun _ ht => absurd ht List.not_mem_nil
  | cons s rest =>
    exact List.forall_mem_append.mpr
      ⟨Stmt.WellTyped.parts s h.1, Stmt.WellTypedAll.parts rest h.2⟩

theorem MethodBody.WellTypedAll.parts (ms : List MethodBody)
    (h : MethodBody.WellTypedAll classes ms) :
    ∀ t ∈ MethodBody.partsOfAll ms, ∃ function', t.WellTyped classes function' := by
  cases ms with
  | nil => exact fun _ ht => absurd ht List.not_mem_nil
  | cons m rest =>
    exact List.forall_mem_append.mpr
      ⟨MethodBody.WellTyped.parts m h.1, MethodBody.WellTypedAll.parts rest h.2⟩

end

end Statements

end PeakLang.Typed
