import PeakLang.Proofs.Tree.Layout
import PeakLang.Proofs.Tree.Parser.Complete.Program
import PeakLang.Proofs.Tree.Parser.Sound.Program

namespace PeakLang.Tree.Parser

theorem ready_ofTokens {tokens : List Token} (h : Scan.Complete tokens) :
    (State.ofTokens tokens).Ready := by
  obtain ⟨words, last, rfl, hlast, hwords⟩ := h
  rw [State.ofTokens, List.dropLast_concat, List.getLast?_concat]
  exact ⟨hlast, hwords⟩

theorem reads_program_of_parse {source : Text} {p : Program} (h : parse source = ⟨p, []⟩) :
    ∃ s, Reads program (State.ofTokens (Token.tokenize source)) p s := by
  rw [parse, parseTokens_eq, Result.mk.injEq] at h
  obtain ⟨rfl, hfaults⟩ := h
  exact ⟨_, reads_of_faults hfaults⟩

/-- A program that was read without a fault is legible. -/
theorem parse_legible {source : Text} {p : Program} (h : parse source = ⟨p, []⟩) :
    Stmt.LegibleAll p := by
  obtain ⟨s, hreads⟩ := reads_program_of_parse h
  exact (program_sound (ready_ofTokens (Scan.tokenize_complete source)) hreads).2

/-- Parsing the canonical text of a program comes to parsing its tokens. -/
theorem parse_format {p : Program} (h : Stmt.LegibleAll p) :
    (parseTokens (Stmt.listWords 0 p ++ [⟨.eof, [], .start⟩])).program =
        (parse p.format).program.unplaced ∧
      ((parseTokens (Stmt.listWords 0 p ++ [⟨.eof, [], .start⟩])).faults = [] ↔
        (parse p.format).faults = []) := by
  rw [← Program.tokenize_format h]
  exact parseTokens_unplaced _

/-- The canonical text of a program that reads back is read as the program. -/
theorem parse_format_of_readsBack {p : Program} (h : Stmt.LegibleAll p) (hback : p.readsBack = true) :
    (parse p.format).faults = [] ∧ (parse p.format).program.unplaced = p.reread := by
  obtain ⟨hprogram, hfaults⟩ := parse_format h
  have hrun : BackOrFault p.readsBack (program ⟨Stmt.listWords 0 p, ⟨.eof, [], .start⟩, []⟩) p.reread
      ⟨[], ⟨.eof, [], .start⟩, []⟩ := program_words p h
  rw [hback] at hrun
  rw [parseTokens_eq, ofTokens_concat, hrun] at hprogram hfaults
  exact ⟨hfaults.mp rfl, hprogram.symm⟩

/-- The canonical text of a program that does not read back has a fault. -/
theorem faults_parse_format {p : Program} (h : Stmt.LegibleAll p) (hback : p.readsBack = false) :
    (parse p.format).faults ≠ [] := by
  intro hfaults
  have hnone := (parse_format h).2.mpr hfaults
  have hrun : BackOrFault p.readsBack (program ⟨Stmt.listWords 0 p, ⟨.eof, [], .start⟩, []⟩) p.reread
      ⟨[], ⟨.eof, [], .start⟩, []⟩ := program_words p h
  rw [hback] at hrun
  rw [parseTokens_eq, ofTokens_concat] at hnone
  exact hrun hnone

/-- The canonical text of an accepted source is accepted exactly if all its statements read back: a
target of an assignment or a step that binds less tightly than an operand has lost its parentheses,
and a call of a bracketed name without arguments has become an empty array. An accepted canonical
text is its own canonical text. -/
theorem parse_format_idempotent {source : Text} (h : (parse source).faults = []) :
    ((parse (parse source).program.format).faults = [] ↔ (parse source).program.readsBack = true) ∧
      ((parse (parse source).program.format).faults = [] →
        (parse (parse source).program.format).program.format = (parse source).program.format) := by
  generalize hparse : parse source = r at h ⊢
  obtain ⟨p, faults⟩ := r
  cases h
  have hlegible := parse_legible hparse
  have hiff : (parse p.format).faults = [] ↔ p.readsBack = true := by
    constructor
    · intro hfaults
      refine Bool.not_eq_false _ |>.mp fun hback => ?_
      exact faults_parse_format hlegible hback hfaults
    · exact fun hback => (parse_format_of_readsBack hlegible hback).1
  refine ⟨hiff, fun hfaults => ?_⟩
  have hprogram := (parse_format_of_readsBack hlegible (hiff.mp hfaults)).2
  rw [← Program.format_unplaced, hprogram, Program.format_reread]

/-- Nested signs, a power, a comparison, an empty array and a quote, in statements that no line end
separates. -/
private def signs : Text := "a.b[-(-c ** 2)] = (d < 1) ? [T?]() : \"\\\"\" f(not g)"

theorem parse_format_idempotent_signs :
    (parse signs).faults = [] ∧ (parse (parse signs).program.format).faults = [] ∧
      (parse (parse signs).program.format).program.format = (parse signs).program.format := by
  have haccepted : (parse signs).faults = [] := by decide +kernel
  have hback : (parse signs).program.readsBack = true := by decide +kernel
  obtain ⟨hiff, hagain⟩ := parse_format_idempotent haccepted
  exact ⟨haccepted, hiff.mpr hback, hagain (hiff.mpr hback)⟩

/-- A sum as a target loses its parentheses, and with them its place before `=`. -/
theorem faults_parse_format_sum_target :
    (parse "(a + b) = 3").faults = [] ∧ (parse "(a + b) = 3").program.format = "a + b = 3\n" ∧
      (parse (parse "(a + b) = 3").program.format).faults ≠ [] := by
  decide +kernel

end PeakLang.Tree.Parser
