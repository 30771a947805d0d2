import PeakLang.Proofs.Js.Lexical
import PeakLang.Proofs.Text.Replace

namespace PeakLang.Js

/-- What is replaced between quotes. The backslash comes first, since every later replacement writes new
backslashes, and none of them writes a byte that is replaced after it. -/
def replacements : List (UInt8 × Text) :=
  [(92, "\\\\"), (34, "\\\""), (10, "\\n"), (13, "\\r"), (9, "\\t")]

/-- Replacing one byte after another escapes each byte once. -/
theorem replacedAll_replacements (value : Text) :
    value.replacedAll replacements = value.flatMap escape := by
  refine Text.replacedAll_eq_flatMap (fun b => ?_) value
  by_cases hspecial : IsSpecial b
  · obtain rfl | rfl | rfl | rfl | rfl := hspecial <;> rfl
  · rw [escape_of_not_special hspecial]
    simp only [IsSpecial, not_or] at hspecial
    refine Text.replacedAll_singleton_of_forall_ne ?_
    simpa [replacements] using hspecial

section Quotes

/-- The number of backslashes that a text ends with. -/
def backslashes (text : Text) : Nat := (text.reverse.takeWhile (· == 92)).length

/-- Whether every quote in a text is escaped. Backslashes escape each other in pairs, so a quote is
escaped if the backslashes right before it are odd in number. -/
def QuotesEscaped (text : Text) : Prop :=
  ∀ before after, text = before ++ 34 :: after → backslashes before % 2 = 1

variable {text : Text} {c : UInt8}

theorem backslashes_concat (text : Text) (c : UInt8) :
    backslashes (text ++ [c]) = if c == 92 then backslashes text + 1 else 0 := by
  rw [backslashes, List.reverse_concat, List.takeWhile_cons]
  split <;> rfl

theorem QuotesEscaped.concat (h : QuotesEscaped text) (hc : c = 34 → backslashes text % 2 = 1) :
    QuotesEscaped (text ++ [c]) := by
  intro before after heq
  rcases List.eq_nil_or_concat after with rfl | ⟨after, d, rfl⟩
  · -- The quote is the last byte.
    obtain ⟨rfl, rfl⟩ := List.concat_inj.mp (by simpa using heq)
    exact hc rfl
  · have hsplit : text ++ [c] = (before ++ 34 :: after) ++ [d] := by simpa using heq
    exact h before after (List.append_inj' hsplit rfl).1

/-- How a byte is written: behind a backslash, or as it is if it has no meaning between quotes. -/
theorem escape_cases (b : UInt8) :
    (∃ c, escape b = [92, c] ∧ c ≠ 10 ∧ c ≠ 13) ∨
      (escape b = [b] ∧ b ≠ 92 ∧ b ≠ 34 ∧ b ≠ 10 ∧ b ≠ 13) := by
  by_cases hspecial : IsSpecial b
  · left
    obtain rfl | rfl | rfl | rfl | rfl := hspecial <;> exact ⟨_, rfl, by decide, by decide⟩
  · right
    refine ⟨escape_of_not_special hspecial, ?_⟩
    simp only [IsSpecial, not_or] at hspecial
    exact ⟨hspecial.1, hspecial.2.1, hspecial.2.2.1, hspecial.2.2.2.1⟩

/-- Whether a text can stand between quotes: it ends no line, its quotes are escaped, and it leaves the
closing quote as it is. -/
structure FitsQuotes (text : Text) : Prop where
  line : 10 ∉ text
  ret : 13 ∉ text
  quotes : QuotesEscaped text
  closed : backslashes text % 2 = 0

theorem FitsQuotes.append_escape (h : FitsQuotes text) (b : UInt8) : FitsQuotes (text ++ escape b) := by
  rcases escape_cases b with ⟨c, hescape, hline, hret⟩ | ⟨hescape, hbackslash, hquote, hline, hret⟩
  · have hodd : backslashes (text ++ [92]) % 2 = 1 := by
      have hclosed := h.closed
      rw [backslashes_concat, beq_self_eq_true, if_pos rfl]
      omega
    rw [hescape, List.append_cons]
    refine ⟨?_, ?_, ?_, ?_⟩
    · simpa [h.line] using hline.symm
    · simpa [h.ret] using hret.symm
    · exact (h.quotes.concat fun hc => absurd hc (by decide)).concat fun _ => hodd
    · rw [backslashes_concat]
      split <;> omega
  · rw [hescape]
    refine ⟨?_, ?_, ?_, ?_⟩
    · simpa [h.line] using hline.symm
    · simpa [h.ret] using hret.symm
    · exact h.quotes.concat fun hc => absurd hc hquote
    · rw [backslashes_concat, beq_eq_false_iff_ne.mpr hbackslash]
      rfl

theorem fitsQuotes_flatMap_escape (value : Text) : FitsQuotes (value.flatMap escape) := by
  have hrun : ∀ text, FitsQuotes text → FitsQuotes (text ++ value.flatMap escape) := by
    induction value with
    | nil =>
      intro text h
      rwa [List.flatMap_nil, List.append_nil]
    | cons b value ih =>
      intro text h
      rw [List.flatMap_cons, ← List.append_assoc]
      exact ih _ (h.append_escape b)
  have hnil : FitsQuotes [] :=
    ⟨List.not_mem_nil, List.not_mem_nil, fun before after heq => by simp at heq, rfl⟩
  exact hrun [] hnil

end Quotes

/-- The literal of a string is a quote, the string after the replacements, and a quote. Between the two
quotes there is no line end and no quote that is not escaped, and JavaScript reads the literal as the
string, whatever follows it. -/
theorem stringLiteral_denotes (value : Text) :
    ∃ body, stringLiteral value = Text.ofString "\"" ++ body ++ Text.ofString "\"" ∧
      body = value.replacedAll replacements ∧ FitsQuotes body ∧
      ∀ rest, quoted? false (body ++ 34 :: rest) = some (value, rest) ∧
        next? (stringLiteral value ++ rest) = some (.string value, rest) := by
  refine ⟨value.flatMap escape, rfl, (replacedAll_replacements value).symm,
    fitsQuotes_flatMap_escape value, fun rest => ?_⟩
  exact ⟨quoted?_flatMap_escape value rest, next?_stringLiteral value rest⟩

end PeakLang.Js
