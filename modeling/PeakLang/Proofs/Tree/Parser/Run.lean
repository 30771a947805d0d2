import PeakLang.Tree.Parser

namespace PeakLang.Tree.Parser

variable {α β : Type}

/-- The state after the token at hand was taken. -/
def State.advanced (s : State) : State := { s with ahead := s.ahead.tail }

/-- The state after a fault was recorded. -/
def State.faulted (s : State) (f : Fault) (pos : Pos) : State :=
  { s with faults := s.faults ++ [(f, pos)] }

/-- A parser takes a token. -/
def Takes (p : Parse α) (s : State) : Prop := (p s).2.ahead.length < s.ahead.length

theorem ofTokens_concat (words : List Token) (last : Token) :
    State.ofTokens (words ++ [last]) = ⟨words, last, []⟩ := by
  rw [State.ofTokens, List.dropLast_concat, List.getLast?_concat]
  rfl

theorem pure_run (a : α) (s : State) : (pure a : Parse α) s = (a, s) := rfl

theorem bind_run (p : Parse α) (k : α → Parse β) (s : State) :
    (p >>= k) s = k (p s).1 (p s).2 := rfl

theorem get_bind_run (p : State → Parse α) (s : State) : ((get : Parse State) >>= p) s = p s s := rfl

theorem modify_run (f : State → State) (s : State) : (modify f : Parse Unit) s = ((), f s) := rfl

theorem current_run (s : State) : current s = (s.current, s) := rfl

theorem kind_run (s : State) : kind s = (s.current.kind, s) := rfl

theorem at?_run (k : TokenKind) (s : State) : at? k s = (s.current.kind == k, s) := rfl

theorem advance_run (s : State) : advance s = (s.current, s.advanced) := rfl

theorem fault_run (f : Fault) (pos : Pos) (s : State) : fault f pos s = ((), s.faulted f pos) := rfl

theorem faultCount_run (s : State) : faultCount s = (s.faults.length, s) := rfl

theorem expect_run (k : TokenKind) (s : State) :
    expect k s =
      if s.current.kind == k then (s.current, s.advanced)
      else (s.current, (unexpected s.current (.token k) s).2) := by
  rw [expect, bind_run, current_run]
  split <;> rfl

theorem accept_run (k : TokenKind) (s : State) :
    accept k s = if s.current.kind == k then (true, s.advanced) else (false, s) := by
  rw [accept, bind_run, at?_run]
  split <;> rfl

theorem speculate_run (p : Parse (Option α)) (s : State) :
    speculate p s =
      match p { s with faults := [] } with
      | (some a, after) =>
        if after.faults.isEmpty then (some a, { after with faults := s.faults }) else (none, s)
      | (none, _) => (none, s) := rfl

/-- A trial that fails leaves the state as it was. -/
theorem speculate_fails {p : Parse (Option α)} {s : State} (h : (speculate p s).1 = none) :
    (speculate p s).2 = s := by
  rw [speculate_run] at h ⊢
  split at h
  · split at h
    · cases h
    · rename_i hfaults
      exact congrArg Prod.snd (if_neg hfaults)
  · rfl

theorem faults_speculate (p : Parse (Option α)) (s : State) :
    (speculate p s).2.faults = s.faults := by
  rw [speculate_run]
  split
  · split <;> rfl
  · rfl

theorem drop_length_takeWhile {α : Type} (p : α → Bool) (l : List α) :
    l.drop (l.takeWhile p).length = l.dropWhile p :=
  calc l.drop (l.takeWhile p).length
      = (l.takeWhile p ++ l.dropWhile p).drop (l.takeWhile p).length := by
        rw [List.takeWhile_append_dropWhile]
    _ = l.dropWhile p := List.drop_left

theorem optionals_run (t : TypeExpr) (s : State) :
    optionals t s =
      ((s.ahead.takeWhile fun t => t.kind == .question).foldl
          (fun t mark => .optional t mark.pos) t,
        { s with ahead := s.ahead.dropWhile fun t => t.kind == .question }) := by
  rw [← drop_length_takeWhile]
  rfl

theorem optionals_question {t : TypeExpr} {mark : Token} {rest : List Token} {last : Token}
    {faults : List (Fault × Pos)} (h : mark.kind = .question) :
    optionals t ⟨mark :: rest, last, faults⟩ =
      optionals (.optional t mark.pos) ⟨rest, last, faults⟩ := by
  simp [optionals_run, h]

theorem optionals_of_ne {t : TypeExpr} {s : State} (h : s.current.kind ≠ .question) :
    optionals t s = (t, s) := by
  obtain ⟨ahead, last, faults⟩ := s
  cases ahead with
  | nil => rfl
  | cons token rest =>
    have hne : token.kind ≠ .question := h
    simp [optionals_run, hne]

end PeakLang.Tree.Parser
