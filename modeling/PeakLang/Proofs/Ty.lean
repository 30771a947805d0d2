import PeakLang.Proofs.Typed.Rules

namespace PeakLang.Ty

variable {a b : Ty} {params params' : List Ty} {result result' : Ty}

theorem equivalent_symm (h : equivalent a b = true) : equivalent b a = true :=
  equivalent_iff_eq.mpr (equivalent_iff_eq.mp h).symm

theorem fits_of_not_functions (forward : Bool) (h : ¬ (a.isFunction = true ∧ b.isFunction = true)) :
    fits forward a b = ((if forward then b else a).isPrim .any || equivalent a b) := by
  cases a with
  | function params result =>
    cases b with
    | function params' result' => exact absurd ⟨rfl, rfl⟩ h
    | _ => rfl
  | _ => rfl

mutual

/-- Storing the other way round is storing the other value. -/
theorem fits_not (forward : Bool) (a b : Ty) : fits (!forward) a b = fits forward b a := by
  by_cases h : a.isFunction = true ∧ b.isFunction = true
  · match a, b with
    | function params result, function params' result' =>
      rw [fits, fits, fitAll_not (!forward) params params', fits_not forward result result']
  · rw [fits_of_not_functions _ h, fits_of_not_functions _ (mt And.symm h)]
    have hsame : equivalent a b = equivalent b a :=
      Bool.eq_iff_iff.mpr ⟨equivalent_symm, equivalent_symm⟩
    cases forward <;> rw [hsame] <;> rfl

theorem fitAll_not (forward : Bool) (as bs : List Ty) :
    fitAll (!forward) as bs = fitAll forward bs as := by
  match as, bs with
  | [], [] | [], _ :: _ | _ :: _, [] => rfl
  | a :: as, b :: bs => rw [fitAll, fitAll, fits_not forward a b, fitAll_not forward as bs]

end

theorem fitAll_iff (forward : Bool) {as bs : List Ty} :
    fitAll forward as bs = true ↔ List.Forall₂ (fun a b => fits forward a b = true) as bs := by
  induction as generalizing bs with
  | nil => cases bs <;> simp [fitAll]
  | cons a as ih => cases bs <;> simp [fitAll, ih]

theorem assignable_function :
    assignable (.function params result) (.function params' result') = true ↔
      List.Forall₂ (fun p q => assignable q p = true) params params' ∧
        assignable result result' = true := by
  simp only [assignable, fits, Bool.and_eq_true, fitAll_iff, fits_not]

mutual

theorem assignable_self (t : Ty) : assignable t t = true := by
  cases t with
  | function params result =>
    exact assignable_function.mpr ⟨forall₂_assignable_self params, assignable_self result⟩
  | _ => simp [assignable, fits, equivalent_self]

theorem forall₂_assignable_self (ts : List Ty) :
    List.Forall₂ (fun p q => assignable q p = true) ts ts := by
  cases ts with
  | nil => exact .nil
  | cons t rest => exact .cons (assignable_self t) (forall₂_assignable_self rest)

end

/-- When a value may be stored: as `any`, as its own type, or as a function with narrower parameters and
a wider result. -/
theorem assignable_iff :
    assignable a b = true ↔ b = .any ∨ a = b ∨
      ∃ params result params' result', a = .function params result ∧ b = .function params' result' ∧
        List.Forall₂ (fun p q => assignable q p = true) params params' ∧
        assignable result result' = true := by
  by_cases h : a.isFunction = true ∧ b.isFunction = true
  · match a, b with
    | function params result, function params' result' =>
      constructor
      · intro hfits
        exact .inr (.inr ⟨_, _, _, _, rfl, rfl, assignable_function.mp hfits⟩)
      · rintro (hany | hsame | ⟨_, _, _, _, ⟨⟩, ⟨⟩, hfits⟩)
        · cases hany
        · exact hsame ▸ assignable_self _
        · exact assignable_function.mpr hfits
  · rw [assignable, fits_of_not_functions true h, Bool.or_eq_true, equivalent_iff_eq, if_pos rfl,
      isPrim_iff]
    refine or_congr_right ⟨.inl, ?_⟩
    rintro (hsame | ⟨_, _, _, _, rfl, rfl, -⟩)
    · exact hsame
    · exact absurd ⟨rfl, rfl⟩ h

theorem assignable_any (t : Ty) : assignable t .any = true := assignable_iff.mpr (.inl rfl)

/-- Nothing but `any` takes every value: a value of type `any` itself fits nowhere else. -/
theorem eq_any_of_any_assignable (h : assignable .any a = true) : a = .any := by
  rcases assignable_iff.mp h with hany | hsame | ⟨_, _, _, _, hfunction, -⟩
  · exact hany
  · exact hsame.symm
  · cases hfunction

mutual

theorem assignable_trans (b : Ty) {a c : Ty} (hab : assignable a b = true)
    (hbc : assignable b c = true) : assignable a c = true := by
  cases b with
  | function params result =>
    rcases assignable_iff.mp hbc with rfl | rfl | ⟨_, _, params'', result'', ⟨⟩, rfl, hparams, hresult⟩
    · exact assignable_any a
    · exact hab
    · rcases assignable_iff.mp hab with hany | rfl | ⟨params', result', _, _, rfl, ⟨⟩, hfits⟩
      · cases hany
      · exact hbc
      · exact assignable_function.mpr ⟨forall₂_assignable_trans params hfits.1 hparams,
          assignable_trans result hfits.2 hresult⟩
  | _ =>
    rcases assignable_iff.mp hbc with rfl | rfl | ⟨_, _, _, _, hfunction, -⟩
    · exact assignable_any a
    · exact hab
    · cases hfunction

/-- Parameters are passed on the other way. -/
theorem forall₂_assignable_trans (bs : List Ty) {as cs : List Ty}
    (hab : List.Forall₂ (fun p q => assignable q p = true) as bs)
    (hbc : List.Forall₂ (fun p q => assignable q p = true) bs cs) :
    List.Forall₂ (fun p q => assignable q p = true) as cs := by
  cases hab with
  | nil => exact hbc
  | cons hhead htail =>
    cases hbc with
    | cons hhead' htail' =>
      exact .cons (assignable_trans _ hhead' hhead) (forall₂_assignable_trans _ htail htail')

end

mutual

theorem assignable_antisymm (a : Ty) {b : Ty} (hab : assignable a b = true)
    (hba : assignable b a = true) : a = b := by
  cases a with
  | function params result =>
    rcases assignable_iff.mp hab with rfl | hsame | ⟨_, _, params', result', ⟨⟩, rfl, hparams, hresult⟩
    · exact eq_any_of_any_assignable hba
    · exact hsame
    · obtain ⟨hparams', hresult'⟩ := assignable_function.mp hba
      rw [forall₂_assignable_antisymm params hparams hparams',
        assignable_antisymm result hresult hresult']
  | _ =>
    rcases assignable_iff.mp hab with rfl | hsame | ⟨_, _, _, _, hfunction, -⟩
    · exact eq_any_of_any_assignable hba
    · exact hsame
    · cases hfunction

theorem forall₂_assignable_antisymm (as : List Ty) {bs : List Ty}
    (hab : List.Forall₂ (fun p q => assignable q p = true) as bs)
    (hba : List.Forall₂ (fun p q => assignable q p = true) bs as) : as = bs := by
  cases as with
  | nil =>
    cases hab
    rfl
  | cons a as =>
    cases hab with
    | cons hhead htail =>
      cases hba with
      | cons hhead' htail' =>
        rw [assignable_antisymm a hhead' hhead, forall₂_assignable_antisymm as htail htail']

end

/-- Being the same type is an equivalence, and assignability a partial order up to it that has `any` as
its only greatest type. -/
theorem assignable_partialOrder :
    Equivalence (fun a b : Ty => equivalent a b = true) ∧
      (∀ t, assignable t t = true) ∧
      (∀ a b c, assignable a b = true → assignable b c = true → assignable a c = true) ∧
      (∀ a a' b b', equivalent a a' = true → equivalent b b' = true →
        assignable a b = assignable a' b') ∧
      (∀ t, (∀ s, assignable s t = true) ↔ equivalent t .any = true) ∧
      (∀ a b, assignable a b = true → assignable b a = true → equivalent a b = true) := by
  refine ⟨⟨equivalent_self, equivalent_symm, ?_⟩, assignable_self, fun _ b _ => assignable_trans b,
    ?_, ?_, ?_⟩
  · intro a b c hab hbc
    exact equivalent_iff_eq.mp hab ▸ hbc
  · intro a a' b b' ha hb
    rw [equivalent_iff_eq.mp ha, equivalent_iff_eq.mp hb]
  · intro t
    constructor
    · intro h
      exact equivalent_iff_eq.mpr (eq_any_of_any_assignable (h .any))
    · intro h s
      rw [equivalent_iff_eq.mp h]
      exact assignable_any s
  · intro a b hab hba
    exact equivalent_iff_eq.mpr (assignable_antisymm a hab hba)

end PeakLang.Ty
