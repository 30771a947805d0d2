import Mathlib.Tactic.Linarith
import Mathlib.Tactic.Ring
import PeakLang.Number.Word

namespace PeakLang.Word

variable {w a b base result : Int64} {exponent : Nat}

/-- A wrapped result that is kept just if it is exact: no other integer of 64 bits has the exact
value. -/
theorem exact_eq_some_iff {c : Int64} {n : Int} {P : Prop} [Decidable P]
    (hwrap : c.toInt = n.bmod (2 ^ 64)) (hexact : P ↔ c.toInt = n) :
    (if P then some c else none) = some w ↔ w.toInt = n := by
  constructor
  · intro h
    obtain ⟨hP, ⟨⟩⟩ := Option.ite_none_right_eq_some.mp h
    exact hexact.mp hP
  · rintro rfl
    have hc : c = w := Int64.toInt_inj.mp (hwrap.trans w.toInt_bmod)
    rw [if_pos (hexact.mpr (hc ▸ rfl)), hc]

theorem add?_eq_some_iff : add? a b = some w ↔ w.toInt = a.toInt + b.toInt := by
  have ha := a.le_toInt
  have ha' := a.toInt_lt
  have hb := b.le_toInt
  have hb' := b.toInt_lt
  refine exact_eq_some_iff (Int64.toInt_add a b) ?_
  rw [Int64.le_iff_toInt_le, Int64.le_iff_toInt_le, Int64.toInt_add, Int64.toInt_zero, Int.bmod_def]
  split <;> omega

theorem sub?_eq_some_iff : sub? a b = some w ↔ w.toInt = a.toInt - b.toInt := by
  have ha := a.le_toInt
  have ha' := a.toInt_lt
  have hb := b.le_toInt
  have hb' := b.toInt_lt
  refine exact_eq_some_iff (Int64.toInt_sub a b) ?_
  rw [Int64.le_iff_toInt_le, Int64.le_iff_toInt_le, Int64.toInt_sub, Int64.toInt_zero, Int.bmod_def]
  split <;> omega

theorem toInt_eq_zero_iff : b.toInt = 0 ↔ b = 0 := Int64.toInt_inj (y := 0)

theorem toInt_eq_least_iff : a.toInt = -2 ^ 63 ↔ a = .minValue := by
  rw [← Int64.toInt_inj, Int64.toInt_minValue]

/-- A wrapped product that gives the other factor when it is divided is exact: it is off by a multiple
of `2 ^ 64` that is a remainder, and so less than the factor. -/
theorem eq_mul_of_tdiv_eq {a b c : Int} (hb : -2 ^ 63 ≤ b) (hb' : b < 2 ^ 63) (hzero : b ≠ 0)
    (hwrap : c = (a * b).bmod (2 ^ 64)) (hdiv : c.tdiv b = a) : c = a * b := by
  have hrem : c.tmod b = c - a * b := by
    rw [← hdiv]
    have := Int.tmod_add_mul_tdiv c b
    rw [Int.mul_comm] at this
    omega
  have hsmall : (c.tmod b).natAbs < 2 ^ 63 + 1 := by
    rw [Int.natAbs_tmod]
    have := Nat.mod_lt c.natAbs (Int.natAbs_pos.mpr hzero)
    omega
  rw [Int.bmod_def] at hwrap
  generalize a * b = n at *
  split at hwrap <;> omega

/-- Dividing a product tells whether it wrapped around, but for the opposite of the least integer, where
the division wraps around too. -/
theorem mul_div_eq_iff (hzero : b ≠ 0) (hleast : ¬ (b = -1 ∧ a = .minValue)) :
    a * b / b = a ↔ (a * b).toInt = a.toInt * b.toInt := by
  have hwrap := Int64.toInt_mul a b
  by_cases hneg : b = -1
  · have ha : a.toInt ≠ -2 ^ 63 := fun h => hleast ⟨hneg, toInt_eq_least_iff.mp h⟩
    have hlow := a.le_toInt
    have hhigh := a.toInt_lt
    subst hneg
    have hb : (-1 : Int64).toInt = -1 := rfl
    have hexact : (a * -1).toInt = a.toInt * (-1 : Int64).toInt := by
      rw [hwrap, hb, Int.bmod_eq_of_le] <;> omega
    refine ⟨fun _ => hexact, fun _ => ?_⟩
    rw [← Int64.toInt_inj, Int64.toInt_div, hexact, hb, Int.mul_tdiv_cancel _ (by decide),
      Int64.toInt_bmod]
  · rw [← Int64.toInt_inj, Int64.toInt_div_of_ne_right _ _ hneg]
    have hb : b.toInt ≠ 0 := fun h => hzero (toInt_eq_zero_iff.mp h)
    constructor
    · exact eq_mul_of_tdiv_eq b.le_toInt b.toInt_lt hb hwrap
    · intro h
      rw [h, Int.mul_tdiv_cancel _ hb]

theorem mul?_eq_some_iff : mul? a b = some w ↔ w.toInt = a.toInt * b.toInt := by
  have hhigh := w.toInt_lt
  unfold mul?
  simp only [Bool.or_eq_true, Bool.and_eq_true, beq_iff_eq]
  split
  · rename_i hzero
    have hproduct : a.toInt * b.toInt = 0 := by
      rcases hzero with rfl | rfl
      · exact Int.zero_mul _
      · exact Int.mul_zero _
    rw [hproduct, Option.some.injEq, toInt_eq_zero_iff, eq_comm]
  · rename_i hzero
    split
    · rename_i hleast
      have hproduct : a.toInt * b.toInt = 2 ^ 63 := by
        rcases hleast with ⟨rfl, rfl⟩ | ⟨rfl, rfl⟩ <;> rfl
      simp only [reduceCtorEq, false_iff]
      omega
    · rename_i hleast
      exact exact_eq_some_iff (Int64.toInt_mul a b)
        (mul_div_eq_iff (fun h => hzero (.inr h)) fun h => hleast (.inr h))

theorem div?_eq_some_iff :
    div? a b = some w ↔ b.toInt ≠ 0 ∧ w.toInt = a.toInt.tdiv b.toInt := by
  have hhigh := w.toInt_lt
  unfold div?
  simp only [Bool.or_eq_true, Bool.and_eq_true, beq_iff_eq]
  split
  · rename_i hnone
    rcases hnone with rfl | ⟨rfl, rfl⟩
    · simp
    · have hquotient : Int64.minValue.toInt.tdiv (-1 : Int64).toInt = 2 ^ 63 := rfl
      simp only [reduceCtorEq, false_iff, hquotient]
      omega
  · rename_i hsome
    simp only [not_or, not_and] at hsome
    have hexact : (a / b).toInt = a.toInt.tdiv b.toInt := by
      by_cases hleast : a = .minValue
      · exact Int64.toInt_div_of_ne_right a b (hsome.2 hleast)
      · exact Int64.toInt_div_of_ne_left a b hleast
    rw [Option.some.injEq, ← Int64.toInt_inj, hexact, ne_eq, toInt_eq_zero_iff, eq_comm]
    exact (and_iff_right hsome.1).symm

theorem rem?_eq_some_iff :
    rem? a b = some w ↔ b.toInt ≠ 0 ∧ w.toInt = a.toInt.tmod b.toInt := by
  unfold rem?
  rw [ne_eq, toInt_eq_zero_iff]
  split <;> rename_i hzero <;> rw [beq_iff_eq] at hzero
  · simp [hzero]
  · rw [Option.some.injEq, ← Int64.toInt_inj, Int64.toInt_mod, eq_comm]
    exact (and_iff_right hzero).symm

theorem neg?_eq_some_iff : neg? a = some w ↔ w.toInt = -a.toInt := by
  have hlow := a.le_toInt
  have hhigh := a.toInt_lt
  have hw := w.toInt_lt
  unfold neg?
  split <;> rename_i hleast <;> rw [beq_iff_eq, ← toInt_eq_least_iff] at hleast
  · simp only [reduceCtorEq, false_iff]
    omega
  · have hexact : (-a).toInt = -a.toInt := by
      rw [Int64.toInt_neg, Int.bmod_eq_of_le] <;> omega
    rw [Option.some.injEq, ← Int64.toInt_inj, hexact, eq_comm]

theorem exists_toInt_eq {n : Int} (hlow : -2 ^ 63 ≤ n) (hhigh : n < 2 ^ 63) :
    ∃ w : Int64, w.toInt = n :=
  ⟨.ofInt n, Int64.toInt_ofInt_of_le hlow hhigh⟩

theorem powerFrom_succ {rounds : Nat} (hzero : exponent ≠ 0) :
    powerFrom (rounds + 1) result base exponent =
      (if exponent % 2 = 1 then mul? result base else some result).bind fun next =>
        if exponent / 2 = 0 then some next
        else (mul? base base).bind fun square => powerFrom rounds next square (exponent / 2) := by
  rw [powerFrom, if_neg (by simpa using hzero)]
  simp only [beq_iff_eq]
  split <;> rfl

theorem pow_eq_mul_square_pow (base : Int) (exponent : Nat) :
    base ^ exponent = base ^ (exponent % 2) * (base * base) ^ (exponent / 2) := by
  conv_lhs => rw [← Nat.mod_add_div exponent 2, pow_add, pow_mul]
  ring

/-- What a round multiplies the result by. -/
theorem round_eq_some_iff {next : Int64} :
    (if exponent % 2 = 1 then mul? result base else some result) = some next ↔
      next.toInt = result.toInt * base.toInt ^ (exponent % 2) := by
  rcases Nat.mod_two_eq_zero_or_one exponent with heven | hodd
  · rw [heven, if_neg (by decide), Option.some.injEq, ← Int64.toInt_inj, pow_zero, mul_one, eq_comm]
  · rw [if_pos hodd, hodd, pow_one, mul?_eq_some_iff]

/-- A round does not overflow if the power does not: what is still to be multiplied is a square, so the
power is on the same side of zero and further from it. -/
theorem exists_round (h : w.toInt = result.toInt * base.toInt ^ exponent) :
    ∃ next : Int64, next.toInt = result.toInt * base.toInt ^ (exponent % 2) := by
  have hlow := w.le_toInt
  have hhigh := w.toInt_lt
  rcases Nat.mod_two_eq_zero_or_one exponent with heven | hodd
  · exact ⟨result, by rw [heven, pow_zero, mul_one]⟩
  · by_cases hbase : base.toInt = 0
    · exact ⟨0, by simp [hodd, hbase]⟩
    · have hrest : 0 < (base.toInt * base.toInt) ^ (exponent / 2) :=
        pow_pos (mul_self_pos.mpr hbase) _
      rw [pow_eq_mul_square_pow, ← mul_assoc] at h
      apply exists_toInt_eq <;> nlinarith

theorem mul_self_ne_two_pow (b : Int) : b * b ≠ 2 ^ 63 := by
  intro h
  have habs : b.natAbs * b.natAbs = 2 ^ 63 := by
    rw [← Int.natAbs_mul, h]
    rfl
  -- The root of 2 ^ 63 lies strictly between two neighbours.
  rcases Nat.lt_or_ge 3037000499 b.natAbs with hgt | hle
  · have := Nat.mul_le_mul (Nat.succ_le_of_lt hgt) (Nat.succ_le_of_lt hgt)
    omega
  · have := Nat.mul_le_mul hle hle
    omega

/-- A square does not overflow if the power does not: it divides the power, and it is no power of two
with an odd exponent. -/
theorem exists_square {next : Int64} (hnext : next.toInt = 0 → base.toInt = 0)
    (hexponent : exponent ≠ 0) (h : w.toInt = next.toInt * (base.toInt * base.toInt) ^ exponent) :
    ∃ square : Int64, square.toInt = base.toInt * base.toInt := by
  have hlow := w.le_toInt
  have hhigh := w.toInt_lt
  by_cases hbase : base.toInt = 0
  · exact ⟨0, by rw [hbase]; rfl⟩
  · have hsquare : 0 < base.toInt * base.toInt := mul_self_pos.mpr hbase
    have hw : w.toInt ≠ 0 := h ▸ mul_ne_zero (mt hnext hbase) (pow_ne_zero _ hsquare.ne')
    have hdvd : base.toInt * base.toInt ∣ w.toInt := h ▸ (dvd_pow_self _ hexponent).mul_left _
    have hle := Int.natAbs_le_of_dvd_ne_zero hdvd hw
    have hne := mul_self_ne_two_pow base.toInt
    generalize base.toInt * base.toInt = square at *
    apply exists_toInt_eq <;> omega

/-- What a round leads to. -/
theorem powerFrom_succ_eq_some_iff {rounds : Nat} (hzero : exponent ≠ 0) :
    powerFrom (rounds + 1) result base exponent = some w ↔
      ∃ next : Int64, next.toInt = result.toInt * base.toInt ^ (exponent % 2) ∧
        if exponent / 2 = 0 then next = w
        else ∃ square : Int64, square.toInt = base.toInt * base.toInt ∧
          powerFrom rounds next square (exponent / 2) = some w := by
  simp only [powerFrom_succ hzero, Option.bind_eq_some_iff, round_eq_some_iff]
  by_cases hlast : exponent / 2 = 0
  · simp only [hlast, ↓reduceIte, Option.some.injEq]
  · simp only [hlast, ↓reduceIte, Option.bind_eq_some_iff, mul?_eq_some_iff]

/-- Squaring gives the exact power, and is given up only where the power does not fit. The rounds have
to cover the binary digits of the exponent; a result of zero comes only from a base of zero. -/
theorem powerFrom_eq_some_iff {rounds : Nat} (hrounds : exponent < 2 ^ rounds)
    (hresult : result.toInt = 0 → base.toInt = 0) :
    powerFrom rounds result base exponent = some w ↔
      w.toInt = result.toInt * base.toInt ^ exponent := by
  have hdone (result base : Int64) :
      some result = some w ↔ w.toInt = result.toInt * base.toInt ^ 0 := by
    rw [Option.some.injEq, ← Int64.toInt_inj, pow_zero, mul_one, eq_comm]
  induction rounds generalizing result base exponent with
  | zero =>
    obtain rfl : exponent = 0 := by omega
    exact hdone result base
  | succ rounds ih =>
    by_cases hzero : exponent = 0
    · subst hzero
      exact hdone result base
    · rw [powerFrom_succ_eq_some_iff hzero]
      have hrest {next : Int64} (hnext : next.toInt = result.toInt * base.toInt ^ (exponent % 2)) :
          result.toInt * base.toInt ^ exponent =
            next.toInt * (base.toInt * base.toInt) ^ (exponent / 2) := by
        rw [hnext, mul_assoc, ← pow_eq_mul_square_pow]
      by_cases hlast : exponent / 2 = 0
      · simp only [hlast, ↓reduceIte]
        constructor
        · rintro ⟨next, hnext, rfl⟩
          rw [hrest hnext, hlast, pow_zero, mul_one]
        · intro h
          obtain ⟨next, hnext⟩ := exists_round h
          rw [hrest hnext, hlast, pow_zero, mul_one, Int64.toInt_inj] at h
          exact ⟨next, hnext, h.symm⟩
      · simp only [hlast, ↓reduceIte]
        have hhalf : exponent / 2 < 2 ^ rounds := by omega
        -- The next result is zero only if the base is, and then its square is zero too.
        have hkept {next : Int64} (hnext : next.toInt = result.toInt * base.toInt ^ (exponent % 2))
            (hn : next.toInt = 0) : base.toInt = 0 := by
          rcases mul_eq_zero.mp (hnext.symm.trans hn) with h | h
          · exact hresult h
          · exact eq_zero_of_pow_eq_zero h
        have hround {next square : Int64}
            (hnext : next.toInt = result.toInt * base.toInt ^ (exponent % 2))
            (hsquare : square.toInt = base.toInt * base.toInt) :
            powerFrom rounds next square (exponent / 2) = some w ↔
              w.toInt = result.toInt * base.toInt ^ exponent := by
          have hvanish (hn : next.toInt = 0) : square.toInt = 0 := by
            rw [hsquare, hkept hnext hn, mul_zero]
          exact (ih hhalf hvanish).trans (by rw [hsquare, hrest hnext])
        constructor
        · rintro ⟨next, hnext, square, hsquare, h⟩
          exact (hround hnext hsquare).mp h
        · intro h
          obtain ⟨next, hnext⟩ := exists_round h
          obtain ⟨square, hsquare⟩ :=
            exists_square (hkept hnext) hlast (h.trans (hrest hnext))
          exact ⟨next, hnext, square, hsquare, (hround hnext hsquare).mpr h⟩

theorem pow?_eq_some_iff :
    pow? a b = some w ↔ 0 ≤ b.toInt ∧ w.toInt = a.toInt ^ b.toInt.toNat := by
  have hhigh := b.toInt_lt
  unfold pow?
  split <;> rename_i hneg <;> rw [Int64.lt_iff_toInt_lt, Int64.toInt_zero] at hneg
  · simp [hneg]
  · have hone : (1 : Int64).toInt = 1 := rfl
    rw [powerFrom_eq_some_iff (by omega) (by rw [hone]; omega), hone, one_mul]
    exact (and_iff_right (not_lt.mp hneg)).symm

end PeakLang.Word
