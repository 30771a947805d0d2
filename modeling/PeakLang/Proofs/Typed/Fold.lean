import PeakLang.Proofs.Number.Word
import PeakLang.Proofs.Typed.Run
import PeakLang.Typed.Fold

namespace PeakLang.Typed

namespace Fold

variable {e : Expr} {op : TokenKind}

/-- What a comparison comes to, read off a strict order that puts one of any two different values
first. -/
theorem comparison_eq_some {α : Type} {less : α → α → Bool} {a b : α}
    (horder : (less a b = true ∧ less b a = false ∧ a ≠ b) ∨
      (less a b = false ∧ less b a = true ∧ a ≠ b) ∨ (less a b = false ∧ less b a = false ∧ a = b))
    (h : comparison op (order less a b) = some e) :
    ∃ r, e = .bool r ∧
      ((op = .eq ∧ (r = true ↔ a = b)) ∨ (op = .neq ∧ (r = true ↔ a ≠ b)) ∨
        (op = .lt ∧ (r = true ↔ less a b = true)) ∨ (op = .leq ∧ (r = true ↔ less b a = false)) ∨
        (op = .gt ∧ (r = true ↔ less b a = true)) ∨ (op = .geq ∧ (r = true ↔ less a b = false))) := by
  unfold order at h
  rcases horder with ⟨hab, hba, hne⟩ | ⟨hab, hba, hne⟩ | ⟨hab, hba, rfl⟩ <;>
    simp only [hab, hba, Bool.false_eq_true, ↓reduceIte] at h <;>
    cases op <;> simp only [comparison, Option.some.injEq, reduceCtorEq] at h <;>
    subst h <;> refine ⟨_, rfl, ?_⟩ <;> simp [*]

theorem bool_eval {r : Bool} {P : Prop} [Decidable P] (s : Store) (h : r = true ↔ P) :
    (Expr.bool r).eval s = .ok (.bool (decide P)) := by
  rw [Expr.eval, Bool.eq_iff_iff.mpr (h.trans decide_eq_true_iff.symm)]

def arithmetic : List TokenKind := [.plus, .minus, .star, .slash, .percent, .power]

/-- Arithmetic on integers is folded to the integer of 64 bits that has the exact result as its value,
if there is one. -/
theorem ints_eq_some_iff (hop : op ∈ arithmetic) {a b w : Int64} :
    ints op a b = some (.int w) ↔ Value.ofInts op a.toInt b.toInt = .ok (.int w.toInt) := by
  have hint {r : Option Int64} : r.map Expr.int = some (.int w) ↔ r = some w := by
    cases r <;> simp
  simp only [arithmetic, List.mem_cons, List.not_mem_nil, or_false] at hop
  rcases hop with rfl | rfl | rfl | rfl | rfl | rfl <;> simp only [ints, hint, Value.ofInts]
  · rw [Word.add?_eq_some_iff, Except.ok.injEq, Value.int.injEq, eq_comm]
  · rw [Word.sub?_eq_some_iff, Except.ok.injEq, Value.int.injEq, eq_comm]
  · rw [Word.mul?_eq_some_iff, Except.ok.injEq, Value.int.injEq, eq_comm]
  · rw [Word.div?_eq_some_iff]
    split <;> simp [*, eq_comm]
  · rw [Word.rem?_eq_some_iff]
    split <;> simp [*, eq_comm]
  · rw [Word.pow?_eq_some_iff]
    split <;> simp_all [eq_comm]

/-- Folding gives nothing but an integer for arithmetic on integers. -/
theorem ints_eq_int (hop : op ∈ arithmetic) {a b : Int64} (h : ints op a b = some e) :
    ∃ w, e = .int w := by
  have hint {r : Option Int64} (hr : r.map Expr.int = some e) : ∃ w, e = .int w := by
    obtain ⟨w, -, rfl⟩ := Option.map_eq_some_iff.mp hr
    exact ⟨w, rfl⟩
  simp only [arithmetic, List.mem_cons, List.not_mem_nil, or_false] at hop
  rcases hop with rfl | rfl | rfl | rfl | rfl | rfl <;> exact hint h

/-- Arithmetic on integers is folded just if its result is defined and lies within 64 bits, and then to
exactly that result. -/
theorem ints_exact {op : TokenKind} (hop : op ∈ arithmetic) (a b : Int64) :
    (∀ w, ints op a b = some (.int w) ↔ Value.ofInts op a.toInt b.toInt = .ok (.int w.toInt)) ∧
      ((∃ w, ints op a b = some (.int w)) ↔
        ∃ n, Value.ofInts op a.toInt b.toInt = .ok (.int n) ∧ -2 ^ 63 ≤ n ∧ n ≤ 2 ^ 63 - 1) ∧
      (ints op a b = none ↔
        ∀ n, Value.ofInts op a.toInt b.toInt = .ok (.int n) → n < -2 ^ 63 ∨ 2 ^ 63 - 1 < n) := by
  have hfolded : (∃ w, ints op a b = some (.int w)) ↔
      ∃ n, Value.ofInts op a.toInt b.toInt = .ok (.int n) ∧ -2 ^ 63 ≤ n ∧ n ≤ 2 ^ 63 - 1 := by
    constructor
    · rintro ⟨w, hw⟩
      exact ⟨w.toInt, (ints_eq_some_iff hop).mp hw, w.le_toInt, Int.le_sub_one_of_lt w.toInt_lt⟩
    · rintro ⟨n, hn, hlow, hhigh⟩
      obtain ⟨w, rfl⟩ := Word.exists_toInt_eq hlow (Int.lt_of_le_sub_one hhigh)
      exact ⟨w, (ints_eq_some_iff hop).mpr hn⟩
  refine ⟨fun w => ints_eq_some_iff hop, hfolded, ?_⟩
  constructor
  · intro hnone n hn
    by_contra hrange
    obtain ⟨w, hw⟩ := hfolded.mpr ⟨n, hn, by omega, by omega⟩
    rw [hnone] at hw
    cases hw
  · intro hout
    cases h : ints op a b with
    | none => rfl
    | some e =>
      obtain ⟨w, rfl⟩ := ints_eq_int hop h
      obtain ⟨n, hn, hlow, hhigh⟩ := hfolded.mp ⟨w, h⟩
      have := hout n hn
      omega

/-- The least integer is a power, its opposite is not an integer of 64 bits. -/
theorem ints_exact_least :
    TokenKind.power ∈ arithmetic ∧ ints .power (-2) 63 = some (.int .minValue) ∧
      ints .power 2 63 = none := by
  have hop : TokenKind.power ∈ arithmetic := by decide
  refine ⟨hop, ((ints_exact hop (-2) 63).1 .minValue).mpr rfl, (ints_exact hop 2 63).2.2.mpr ?_⟩
  intro n hn
  cases hn
  decide

theorem ints_eval {a b : Int64} {v : Value} (s : Store) (hfold : ints op a b = some e)
    (hv : Value.ofInts op a.toInt b.toInt = .ok v) :
    e.eval s = .ok v := by
  have hcompare (h : comparison op (order (fun a b : Int64 => a < b) a b) = some e) :
      e.eval s = .ok v := by
    obtain ⟨r, rfl, hr⟩ := comparison_eq_some
      (by
        simp only [decide_eq_true_eq, decide_eq_false_iff_not, Int64.lt_iff_toInt_lt, ne_eq,
          ← Int64.toInt_inj]
        omega) h
    simp only [decide_eq_true_eq, decide_eq_false_iff_not, Int64.lt_iff_toInt_lt, ne_eq,
      ← Int64.toInt_inj, not_lt] at hr
    rcases hr with ⟨rfl, hr⟩ | ⟨rfl, hr⟩ | ⟨rfl, hr⟩ | ⟨rfl, hr⟩ | ⟨rfl, hr⟩ | ⟨rfl, hr⟩ <;>
      cases hv <;> exact bool_eval s hr
  have hint {w : Int64} {n : Int} (hw : w.toInt = n) (hn : v = .int n) :
      (Expr.int w).eval s = .ok v := by
    rw [hn, Expr.eval, hw]
  cases op with
  | plus =>
    obtain ⟨w, hw, rfl⟩ := Option.map_eq_some_iff.mp hfold
    cases hv
    exact hint (Word.add?_eq_some_iff.mp hw) rfl
  | minus =>
    obtain ⟨w, hw, rfl⟩ := Option.map_eq_some_iff.mp hfold
    cases hv
    exact hint (Word.sub?_eq_some_iff.mp hw) rfl
  | star =>
    obtain ⟨w, hw, rfl⟩ := Option.map_eq_some_iff.mp hfold
    cases hv
    exact hint (Word.mul?_eq_some_iff.mp hw) rfl
  | slash =>
    obtain ⟨w, hw, rfl⟩ := Option.map_eq_some_iff.mp hfold
    obtain ⟨hzero, hw⟩ := Word.div?_eq_some_iff.mp hw
    simp only [Value.ofInts, if_neg hzero] at hv
    cases hv
    exact hint hw rfl
  | percent =>
    obtain ⟨w, hw, rfl⟩ := Option.map_eq_some_iff.mp hfold
    obtain ⟨hzero, hw⟩ := Word.rem?_eq_some_iff.mp hw
    simp only [Value.ofInts, if_neg hzero] at hv
    cases hv
    exact hint hw rfl
  | power =>
    obtain ⟨w, hw, rfl⟩ := Option.map_eq_some_iff.mp hfold
    obtain ⟨hnonneg, hw⟩ := Word.pow?_eq_some_iff.mp hw
    simp only [Value.ofInts, if_neg (not_lt.mpr hnonneg)] at hv
    cases hv
    exact hint hw rfl
  | _ => exact hcompare hfold

/-- Of two different texts one precedes the other. -/
theorem precedes_cases (a b : Text) :
    (Text.precedes a b = true ∧ Text.precedes b a = false ∧ a ≠ b) ∨
      (Text.precedes a b = false ∧ Text.precedes b a = true ∧ a ≠ b) ∨
      (Text.precedes a b = false ∧ Text.precedes b a = false ∧ a = b) := by
  simp only [Text.precedes, decide_eq_true_eq, decide_eq_false_iff_not]
  by_cases hab : a < b
  · exact .inl ⟨hab, List.lt_asymm hab, fun heq => List.lt_irrefl b (heq ▸ hab)⟩
  · by_cases hba : b < a
    · exact .inr (.inl ⟨hab, hba, fun heq => List.lt_irrefl a (heq ▸ hba)⟩)
    · exact .inr (.inr ⟨hab, hba, List.le_antisymm hba hab⟩)

theorem strings_eval {a b : Text} {v : Value} (s : Store) (hfold : strings op a b = some e)
    (hv : Value.ofStrings op a b = .ok v) : e.eval s = .ok v := by
  have hcompare (h : comparison op (order Text.precedes a b) = some e) : e.eval s = .ok v := by
    obtain ⟨r, rfl, hr⟩ := comparison_eq_some (precedes_cases a b) h
    simp only [Text.precedes, decide_eq_true_eq, decide_eq_false_iff_not, List.not_lt] at hr
    rcases hr with ⟨rfl, hr⟩ | ⟨rfl, hr⟩ | ⟨rfl, hr⟩ | ⟨rfl, hr⟩ | ⟨rfl, hr⟩ | ⟨rfl, hr⟩ <;>
      cases hv <;> exact bool_eval s hr
  cases op with
  | plus =>
    cases hfold
    cases hv
    rfl
  | _ => exact hcompare hfold

theorem bools_eval {a b : Bool} {v : Value} (s : Store) (hfold : bools op a b = some e)
    (hv : Value.ofBools op a b = .ok v) : e.eval s = .ok v := by
  cases op <;> simp only [Value.ofBools, reduceCtorEq] at hv
  all_goals
    cases hfold
    cases hv
    cases a <;> cases b <;> rfl

/-- An operation on two constants is folded to the value that it comes to. The operators that need not
look at both operands are folded like the others. -/
theorem binary_eval {x y : Expr} {type : Ty} {v : Value} (s : Store)
    (hfold : binary op x y = some e) (hv : (Expr.binary op x y type).eval s = .ok v) :
    e.eval s = .ok v := by
  unfold binary at hfold
  split at hfold
  · cases op <;> exact ints_eval s hfold hv
  · cases op <;> cases hv
  · cases op <;> exact strings_eval s hfold hv
  · rename_i a b
    cases op with
    | kwAnd =>
      cases hfold
      cases a <;> cases b <;> exact hv
    | kwOr =>
      cases hfold
      cases a <;> cases b <;> exact hv
    | _ => exact bools_eval s hfold hv
  · cases hfold

theorem unary_eval {x : Expr} {type : Ty} {v : Value} (s : Store) (hfold : unary op x = some e)
    (hv : (Expr.unary op x type).eval s = .ok v) :
    e.eval s = .ok v := by
  unfold unary at hfold
  split at hfold
  · split at hfold
    · rename_i n hop
      obtain rfl := beq_iff_eq.mp hop
      obtain ⟨w, hw, rfl⟩ := Option.map_eq_some_iff.mp hfold
      cases hv
      rw [Expr.eval, Word.neg?_eq_some_iff.mp hw]
    · cases hfold
  · cases hv
  · split at hfold
    · rename_i b hop
      obtain rfl := beq_iff_eq.mp hop
      cases hfold
      cases hv
      rfl
    · cases hfold
  · cases hfold

end Fold

end PeakLang.Typed
