import PeakLang.Proofs.Except
import PeakLang.Proofs.Typed.Fold
import PeakLang.Proofs.Typed.Rules
import PeakLang.Typed.Simplify

namespace PeakLang.Typed

variable {op : TokenKind} {x y : Expr} {type : Ty} {s : Store} {v : Value}

/-- An operation of which one operand is an integer is one on integers. -/
theorem Value.binary_int {a b : Value} {n : Int} (hint : a = .int n ∨ b = .int n)
    (h : Value.binary op a b = .ok v) :
    ∃ m k, a = .int m ∧ b = .int k ∧ Value.ofInts op m k = .ok v := by
  cases a <;> cases b <;> simp_all [Value.binary]

namespace Expr

theorem eq_bool_of_isBool {b : Bool} (h : x.isBool b = true) : x = .bool b := by
  unfold isBool at h
  split at h
  · rw [beq_iff_eq.mp h]
  · cases h

/-- Of the constants that count as zero only the integer comes to a value here. -/
theorem eval_of_isZero (h : x.isZero = true) (hx : x.eval s = .ok v) : v = .int 0 := by
  unfold isZero at h
  split at h
  · rw [beq_iff_eq.mp h] at hx
    cases hx
    rfl
  · cases hx
  · cases h

theorem eval_of_isOne (h : x.isOne = true) (hx : x.eval s = .ok v) : v = .int 1 := by
  unfold isOne at h
  split at h
  · rw [beq_iff_eq.mp h] at hx
    cases hx
    rfl
  · cases hx
  · cases h

/-- An operator that needs both operands is applied to what they come to. -/
theorem eval_binary (hand : op ≠ .kwAnd) (hor : op ≠ .kwOr) :
    (binary op x y type).eval s = .ok v ↔
      ∃ a b, x.eval s = .ok a ∧ y.eval s = .ok b ∧ Value.binary op a b = .ok v := by
  have hstrict : (binary op x y type).eval s = (do Value.binary op (← x.eval s) (← y.eval s)) := by
    cases op <;> first | rfl | contradiction
  simp only [hstrict, bind_eq_ok_iff]
  constructor
  · rintro ⟨a, ha, b, hb, h⟩
    exact ⟨a, b, ha, hb, h⟩
  · rintro ⟨a, b, ha, hb, h⟩
    exact ⟨a, ha, b, hb, h⟩

theorem asBool_eq_ok_iff {b : Bool} : v.asBool = .ok b ↔ v = .bool b := by
  cases v <;> simp [Value.asBool]

/-- `or` is decided by a left operand that is true, `and` by one that is false. Otherwise they come to
what the right operand comes to, which is a truth value. -/
theorem eval_logical {decided : Bool} :
    (binary (if decided then .kwOr else .kwAnd) x y type).eval s = .ok v ↔
      (x.eval s = .ok (.bool decided) ∧ v = .bool decided) ∨
        (x.eval s = .ok (.bool !decided) ∧ ∃ b, y.eval s = .ok (.bool b) ∧ v = .bool b) := by
  have hcases : (binary (if decided then .kwOr else .kwAnd) x y type).eval s =
      (do if (← (← x.eval s).asBool) = decided then return .bool decided
          else return .bool (← (← y.eval s).asBool)) := by
    cases decided
    · simp only [Bool.false_eq_true, ↓reduceIte, eval]
      congr 1; funext a; congr 1; funext b
      cases b <;> rfl
    · rfl
  simp only [hcases, bind_eq_ok_iff, asBool_eq_ok_iff]
  constructor
  · rintro ⟨_, hx, b, rfl, h⟩
    by_cases hb : b = decided
    · rw [if_pos hb, pure_eq_ok_iff] at h
      exact .inl ⟨hb ▸ hx, h.symm⟩
    · simp only [if_neg hb, bind_eq_ok_iff, asBool_eq_ok_iff, pure_eq_ok_iff] at h
      obtain ⟨_, hy, c, rfl, rfl⟩ := h
      rw [Bool.eq_not_of_ne hb] at hx
      exact .inr ⟨hx, c, hy, rfl⟩
  · rintro (⟨hx, rfl⟩ | ⟨hx, c, hy, rfl⟩)
    · exact ⟨_, hx, decided, rfl, by rw [if_pos rfl, pure_eq_ok_iff]⟩
    · refine ⟨_, hx, !decided, rfl, ?_⟩
      simp only [Bool.not_eq_eq_eq_not, Bool.eq_not_self, ↓reduceIte, bind_eq_ok_iff, asBool_eq_ok_iff,
        pure_eq_ok_iff]
      exact ⟨_, hy, c, rfl, rfl⟩

/-- Dropping the operand that does not decide keeps what is left. -/
theorem eval_of_neutral (decided : Bool) {e : Expr}
    (hrule : (if x.isBool (!decided) then some y else if y.isBool (!decided) then some x else none) =
      some e)
    (h : (binary (if decided then .kwOr else .kwAnd) x y type).eval s = .ok v) :
    e.eval s = .ok v := by
  rw [eval_logical] at h
  split at hrule
  · rename_i hneutral
    cases hrule
    rw [eq_bool_of_isBool hneutral] at h
    rcases h with ⟨hx, _⟩ | ⟨_, b, hy, rfl⟩
    · simp [eval] at hx
    · exact hy
  · split at hrule
    · rename_i hneutral
      cases hrule
      rw [eq_bool_of_isBool hneutral] at h
      rcases h with ⟨hx, rfl⟩ | ⟨hx, b, hy, rfl⟩
      · exact hx
      · cases hy
        exact hx
    · cases hrule

theorem logical?_eval {e : Expr} (hrule : logical? op x y = some e)
    (h : (binary op x y type).eval s = .ok v) : e.eval s = .ok v := by
  unfold logical? at hrule
  split at hrule
  · exact eval_of_neutral true hrule h
  · exact eval_of_neutral false hrule h
  · cases hrule

/-- The identities by which an operation with a zero or a one is simplified. -/
inductive Identity : TokenKind → (x y : Expr) → Ty → (result : Expr) → Prop
  | rightZero {op : TokenKind} {x y : Expr} {type : Ty} (hop : op = .plus ∨ op = .minus)
      (hy : y.isZero = true) : Identity op x y type x
  | leftZero {x y : Expr} {type : Ty} (hx : x.isZero = true) : Identity .plus x y type y
  | opposite {x y : Expr} {type : Ty} (hx : x.isZero = true) :
      Identity .minus x y type (.unary .minus y type)
  | rightOne {op : TokenKind} {x y : Expr} {type : Ty}
      (hop : op = .star ∨ op = .slash ∨ op = .power) (hy : y.isOne = true) : Identity op x y type x
  | leftOne {x y : Expr} {type : Ty} (hx : x.isOne = true) : Identity .star x y type y
  | rightNothing {x y : Expr} {type : Ty} (hy : y.isZero = true) : Identity .star x y type y
  | leftNothing {op : TokenKind} {x y : Expr} {type : Ty} (hop : op = .star ∨ op = .slash)
      (hx : x.isZero = true) : Identity op x y type x
  | powerOfOne {x y : Expr} {type : Ty} (hx : x.isOne = true) : Identity .power x y type x
  | zeroPower {x y : Expr} {type : Ty} (hy : y.isZero = true) : Identity .power x y type (oneOf type)

theorem algebraic?_identity {e : Expr} (h : algebraic? op x y type = some e) :
    Identity op x y type e := by
  unfold algebraic? at h
  split at h
  · split at h
    · cases h
      exact .rightZero (.inl rfl) ‹_›
    · obtain ⟨hx, ⟨⟩⟩ := Option.ite_none_right_eq_some.mp h
      exact .leftZero hx
  · split at h
    · cases h
      exact .rightZero (.inr rfl) ‹_›
    · obtain ⟨hx, ⟨⟩⟩ := Option.ite_none_right_eq_some.mp h
      exact .opposite hx
  · split at h
    · cases h
      exact .rightOne (.inl rfl) ‹_›
    · split at h
      · cases h
        exact .leftOne ‹_›
      · split at h
        · cases h
          exact .rightNothing ‹_›
        · obtain ⟨hx, ⟨⟩⟩ := Option.ite_none_right_eq_some.mp h
          exact .leftNothing (.inl rfl) hx
  · split at h
    · cases h
      exact .rightOne (.inr (.inl rfl)) ‹_›
    · obtain ⟨hx, ⟨⟩⟩ := Option.ite_none_right_eq_some.mp h
      exact .leftNothing (.inr rfl) hx
  · split at h
    · cases h
      exact .rightOne (.inr (.inr rfl)) ‹_›
    · split at h
      · cases h
        exact .powerOfOne ‹_›
      · obtain ⟨hy, ⟨⟩⟩ := Option.ite_none_right_eq_some.mp h
        exact .zeroPower hy
  · cases h

/-- Every identity keeps what an operation on integers comes to. The constant one that replaces a power
has the type of the power, so that type must not be one of floating-point numbers. -/
theorem Identity.eval {e : Expr} (hrule : Identity op x y type e)
    (htype : type.isPrim .affogato = false) (h : (binary op x y type).eval s = .ok v) :
    e.eval s = .ok v := by
  have hand : op ≠ .kwAnd := by
    rintro rfl
    cases hrule <;> simp_all
  have hor : op ≠ .kwOr := by
    rintro rfl
    cases hrule <;> simp_all
  obtain ⟨a, b, hx, hy, hv⟩ := (eval_binary hand hor).mp h
  have hzeroLeft (hz : x.isZero = true) : a = .int 0 := eval_of_isZero hz hx
  have hzeroRight (hz : y.isZero = true) : b = .int 0 := eval_of_isZero hz hy
  have honeLeft (hz : x.isOne = true) : a = .int 1 := eval_of_isOne hz hx
  have honeRight (hz : y.isOne = true) : b = .int 1 := eval_of_isOne hz hy
  cases hrule with
  | rightZero hop hz =>
    obtain ⟨n, m, rfl, rfl, hres⟩ := Value.binary_int (.inr (hzeroRight hz)) hv
    cases hzeroRight hz
    rcases hop with rfl | rfl <;> simpa [Value.ofInts, hx] using hres
  | leftZero hz =>
    obtain ⟨n, m, rfl, rfl, hres⟩ := Value.binary_int (.inl (hzeroLeft hz)) hv
    cases hzeroLeft hz
    simpa [Value.ofInts, hy] using hres
  | opposite hz =>
    obtain ⟨n, m, rfl, rfl, hres⟩ := Value.binary_int (.inl (hzeroLeft hz)) hv
    cases hzeroLeft hz
    simpa [Value.ofInts, Expr.eval, hy, bind, Except.bind, Value.unary] using hres
  | rightOne hop hz =>
    obtain ⟨n, m, rfl, rfl, hres⟩ := Value.binary_int (.inr (honeRight hz)) hv
    cases honeRight hz
    rcases hop with rfl | rfl | rfl <;> simpa [Value.ofInts, hx] using hres
  | leftOne hz =>
    obtain ⟨n, m, rfl, rfl, hres⟩ := Value.binary_int (.inl (honeLeft hz)) hv
    cases honeLeft hz
    simpa [Value.ofInts, hy] using hres
  | rightNothing hz =>
    obtain ⟨n, m, rfl, rfl, hres⟩ := Value.binary_int (.inr (hzeroRight hz)) hv
    cases hzeroRight hz
    simpa [Value.ofInts, hy] using hres
  | leftNothing hop hz =>
    obtain ⟨n, m, rfl, rfl, hres⟩ := Value.binary_int (.inl (hzeroLeft hz)) hv
    cases hzeroLeft hz
    rcases hop with rfl | rfl
    · simpa [Value.ofInts, hx] using hres
    · by_cases hm : m = 0 <;> simp_all [Value.ofInts]
  | powerOfOne hz =>
    obtain ⟨n, m, rfl, rfl, hres⟩ := Value.binary_int (.inl (honeLeft hz)) hv
    cases honeLeft hz
    by_cases hm : m < 0 <;> simp_all [Value.ofInts]
  | zeroPower hz =>
    obtain ⟨n, m, rfl, rfl, hres⟩ := Value.binary_int (.inr (hzeroRight hz)) hv
    cases hzeroRight hz
    simp only [Value.ofInts, lt_self_iff_false, ↓reduceIte, Int.toNat_zero, pow_zero] at hres
    rw [oneOf, htype, if_neg (by decide), ← hres]
    rfl

theorem simplifiedBinary_eval (htype : type.isPrim .affogato = false)
    (h : (binary op x y type).eval s = .ok v) : (simplifiedBinary op x y type).eval s = .ok v := by
  unfold simplifiedBinary
  split
  · exact logical?_eval ‹_› h
  · split
    · cases hfold : Fold.binary op x y with
      | none => exact h
      | some e => exact Fold.binary_eval s hfold h
    · cases hrule : algebraic? op x y type with
      | none => exact h
      | some e => exact (algebraic?_identity hrule).eval htype h

theorem simplifiedUnary_eval (h : (unary op x type).eval s = .ok v) :
    (simplifiedUnary op x type).eval s = .ok v := by
  unfold simplifiedUnary
  cases hfold : Fold.unary op x with
  | none => exact h
  | some e => exact Fold.unary_eval s hfold h

theorem eval_conditional {test consequent alternate : Expr} :
    (conditional test consequent alternate type).eval s = .ok v ↔
      ∃ b, test.eval s = .ok (.bool b) ∧ (if b then consequent else alternate).eval s = .ok v := by
  simp only [eval, bind_eq_ok_iff, asBool_eq_ok_iff]
  constructor
  · rintro ⟨_, ht, b, rfl, h⟩
    exact ⟨b, ht, by cases b <;> exact h⟩
  · rintro ⟨b, ht, h⟩
    exact ⟨_, ht, b, rfl, by cases b <;> exact h⟩

theorem simplifiedConditional_eval {test consequent alternate : Expr}
    (h : (conditional test consequent alternate type).eval s = .ok v) :
    (simplifiedConditional test consequent alternate type).eval s = .ok v := by
  unfold simplifiedConditional
  split
  · exact h
  · exact h
  · exact h

/-- A plain expression that obeys the rules has a plain type, whatever types its nodes carry. -/
theorem isPlainType_type {classes : List Class} (e : Expr) (htyped : e.WellTyped classes)
    (hplain : e.isPlain = true) : isPlainType e.type = true := by
  cases e with
  | int | string | bool => rfl
  | var v =>
    obtain ⟨w, rfl, -⟩ := htyped
    exact hplain
  | unary op operand type =>
    rcases htyped.2.result_eq with rfl | rfl
    · rfl
    · exact isPlainType_type operand htyped.1 hplain
  | binary op left right type =>
    simp only [isPlain, Bool.and_eq_true] at hplain
    rcases htyped.2.2.result_eq with rfl | rfl
    · rfl
    · exact isPlainType_type left htyped.1 hplain.1
  | conditional test consequent alternate type =>
    simp only [isPlain, Bool.and_eq_true] at hplain
    obtain ⟨-, htyped, -, -, -, rfl⟩ := htyped
    exact isPlainType_type consequent htyped hplain.1.2
  | _ => cases hplain

/-- Simplifying an expression keeps what it comes to. -/
theorem simplify_eval {classes : List Class} (e : Expr) {v : Value} (htyped : e.WellTyped classes)
    (hplain : e.isPlain = true) (h : e.eval s = .ok v) : e.simplify.eval s = .ok v := by
  cases e with
  | int | string | bool | var => exact h
  | unary op operand type =>
    simp only [eval, bind_eq_ok_iff] at h
    obtain ⟨a, ha, h⟩ := h
    have ih := simplify_eval operand htyped.1 hplain ha
    apply simplifiedUnary_eval
    simp only [eval, ih, bind, Except.bind, h]
  | binary op left right type =>
    have htype : type.isPrim .affogato = false := by
      have hp := isPlainType_type _ htyped hplain
      cases hf : type.isPrim .affogato with
      | false => rfl
      | true =>
        rw [Expr.type, Ty.isPrim_iff.mp hf] at hp
        cases hp
    simp only [isPlain, Bool.and_eq_true] at hplain
    have ihl {a : Value} (ha : left.eval s = .ok a) : left.simplify.eval s = .ok a :=
      simplify_eval left htyped.1 hplain.1 ha
    have ihr {a : Value} (ha : right.eval s = .ok a) : right.simplify.eval s = .ok a :=
      simplify_eval right htyped.2.1 hplain.2 ha
    have hlogical (decided : Bool) (hop : op = if decided then .kwOr else .kwAnd) :
        (binary op left.simplify right.simplify type).eval s = .ok v := by
      rw [hop, eval_logical] at h
      rw [hop, eval_logical]
      rcases h with ⟨hl, rfl⟩ | ⟨hl, b, hr, rfl⟩
      · exact .inl ⟨ihl hl, rfl⟩
      · exact .inr ⟨ihl hl, b, ihr hr, rfl⟩
    apply simplifiedBinary_eval htype
    by_cases hor : op = .kwOr
    · exact hlogical true hor
    · by_cases hand : op = .kwAnd
      · exact hlogical false hand
      · obtain ⟨a, b, ha, hb, h⟩ := (eval_binary hand hor).mp h
        exact (eval_binary hand hor).mpr ⟨a, b, ihl ha, ihr hb, h⟩
  | conditional test consequent alternate type =>
    simp only [isPlain, Bool.and_eq_true] at hplain
    obtain ⟨b, ht, h⟩ := eval_conditional.mp h
    apply simplifiedConditional_eval
    rw [eval_conditional]
    refine ⟨b, simplify_eval test htyped.1 hplain.1.1 ht, ?_⟩
    cases b with
    | true => exact simplify_eval consequent htyped.2.1 hplain.1.2 h
    | false => exact simplify_eval alternate htyped.2.2.1 hplain.2 h
  | _ => cases hplain

end Expr

end PeakLang.Typed
