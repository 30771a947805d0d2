import PeakLang.Text

namespace PeakLang.Text

/-- A text with another text in place of each byte of a kind. -/
def replaced (old : UInt8) (new text : Text) : Text :=
  text.flatMap fun b => if b == old then new else [b]

/-- A text after replacements in a row. -/
def replacedAll (steps : List (UInt8 × Text)) (text : Text) : Text :=
  steps.foldl (fun text step => replaced step.1 step.2 text) text

theorem replaced_singleton_of_ne {old b : UInt8} (new : Text) (h : b ≠ old) :
    replaced old new [b] = [b] := by
  simp [replaced, h]

theorem replacedAll_flatMap {α : Type} (steps : List (UInt8 × Text)) (f : α → Text) (as : List α) :
    replacedAll steps (as.flatMap f) = as.flatMap fun a => replacedAll steps (f a) := by
  induction steps generalizing f with
  | nil => rfl
  | cons step steps ih =>
    have hstep : replaced step.1 step.2 (as.flatMap f) =
        as.flatMap fun a => replaced step.1 step.2 (f a) := List.flatMap_assoc
    calc replacedAll (step :: steps) (as.flatMap f)
        = replacedAll steps (replaced step.1 step.2 (as.flatMap f)) := rfl
      _ = replacedAll steps (as.flatMap fun a => replaced step.1 step.2 (f a)) := by rw [hstep]
      _ = as.flatMap fun a => replacedAll (step :: steps) (f a) := ih _

/-- A byte that none of the replacements is for stays. -/
theorem replacedAll_singleton_of_forall_ne {steps : List (UInt8 × Text)} {b : UInt8}
    (h : ∀ step ∈ steps, b ≠ step.1) : replacedAll steps [b] = [b] := by
  induction steps with
  | nil => rfl
  | cons step steps ih =>
    obtain ⟨hstep, hrest⟩ := List.forall_mem_cons.mp h
    change replacedAll steps (replaced step.1 step.2 [b]) = [b]
    rw [replaced_singleton_of_ne _ hstep]
    exact ih hrest

/-- Replacements in a row do what one pass over the bytes does, if they do so on each byte. -/
theorem replacedAll_eq_flatMap {steps : List (UInt8 × Text)} {f : UInt8 → Text}
    (h : ∀ b, replacedAll steps [b] = f b) (text : Text) :
    replacedAll steps text = text.flatMap f :=
  calc replacedAll steps text
      = replacedAll steps (text.flatMap fun b => [b]) := by rw [List.flatMap_singleton']
    _ = text.flatMap fun b => replacedAll steps [b] := replacedAll_flatMap _ _ _
    _ = text.flatMap f := by rw [funext h]

end PeakLang.Text
