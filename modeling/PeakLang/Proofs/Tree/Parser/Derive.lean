import PeakLang.Proofs.Tree.Format
import PeakLang.Proofs.Tree.Names

namespace PeakLang.Tree.Parser

theorem not_isName_errorName : ¬ Lexeme.IsName errorName := by
  rintro ⟨cs, hcs, ⟨c, hc, hstart⟩, -⟩
  have hdecode : cs.map .scalar = Rune.decode errorName := by
    rw [hcs, Rune.decode_encode_scalar]
  have hhead : (cs.map Rune.scalar).head? = some (.scalar c) := by
    rw [List.head?_map, hc]
    rfl
  have hlt : (Rune.decode errorName).head? = some (.scalar '<') := by decide +kernel
  rw [hdecode, hlt, Option.some.injEq, Rune.scalar.injEq] at hhead
  rw [← hhead] at hstart
  exact absurd hstart (by decide +kernel)

/-- The tokens of a source that is read without a fault, up to the end of the source, are derived from
the grammar, and the tree is the one that the derivation builds. No name in it stands for one that
could not be read. -/
theorem parse_derived {source : Text} (h : (parse source).faults = []) :
    ∃ words last, Token.tokenize source = words ++ [last] ∧ last.kind = .eof ∧
      (parse source).program.Derived words ∧ errorName ∉ (parse source).program.names := by
  generalize hparse : parse source = r at h ⊢
  obtain ⟨p, faults⟩ := r
  cases h
  have hcomplete := Scan.tokenize_complete source
  obtain ⟨s, hreads⟩ := reads_program_of_parse hparse
  obtain ⟨hderived, -⟩ := program_sound (ready_ofTokens hcomplete) hreads
  have hname (hmem : errorName ∈ p.names) : False :=
    not_isName_errorName (Stmt.LegibleAll.isName p (parse_legible hparse) errorName hmem)
  obtain ⟨words, last, hsplit, hlast, -⟩ := hcomplete
  rw [hsplit, ofTokens_concat] at hderived
  exact ⟨words, last, hsplit, hlast, hderived, hname⟩

/-- A class, branches in a chain, operators of every level and all that can follow an operand. -/
private def menu : Text :=
  "order T \x7b a: [pump?] item m(f: (T, pump) -> T?) -> T " ++
    "\x7b shot.a = [[T]?]() serve f(1)[2].b \x7d \x7d " ++
    "brew a < b + c * -d ** 2 and not e or (g ? h : i) \x7b m(\"x\", [])(y)[z]++ \x7d " ++
    "pull brew true \x7b tamp \x7d pull \x7b serve \x7d"

theorem parse_derived_menu :
    (parse menu).faults = [] ∧
      ∃ words last, Token.tokenize menu = words ++ [last] ∧ last.kind = .eof ∧
        (parse menu).program.Derived words ∧ errorName ∉ (parse menu).program.names := by
  have hfaults : (parse menu).faults = [] := by decide +kernel
  exact ⟨hfaults, parse_derived hfaults⟩

end PeakLang.Tree.Parser
