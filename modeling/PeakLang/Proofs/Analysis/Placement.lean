import PeakLang.Proofs.Analysis.Closed
import PeakLang.Proofs.Analysis.Origin
import PeakLang.Proofs.Analysis.Reread

namespace PeakLang.Analysis

open Typed (Expr Stmt Site)

/-- A statement that is let through is confined to what lies around it. -/
theorem Origin.confined {t : Tree.Stmt} {p : Site} (h : Origin t p) : p.Confined := by
  obtain ⟨s, s', hs, hfits, hpasses⟩ := h
  constructor
  · intro heq
    rw [heq] at hpasses
    cases hpasses with
    | leave hloop => exact hfits.inLoop hloop
  · intro e he c hc
    rcases Stmt.mem_readExprs he with hread | ⟨v, rfl⟩
    · obtain ⟨ref, rfl, hcls⟩ := hpasses.comes hs e hread _ hc
      obtain ⟨cls, m, howner, rfl⟩ := hfits.cls ref hcls
      exact ⟨cls, m, howner, rfl⟩
    · cases List.mem_singleton.mp hc

/-- The statements of a program that is let through are well placed, also after it was simplified. -/
theorem analyze_wellPlaced (t : Tree.Program) (program : Typed.Program)
    (h : analyze t = .ok program) : program.WellPlaced ∧ program.simplify.WellPlaced := by
  obtain ⟨state, hchecked⟩ := analyze_checked h
  have hrules := hchecked.wellTyped
  have hconfined : ∀ p ∈ program.sites, p.Confined := by
    intro p hp
    obtain ⟨t, -, horigin⟩ := exists_mem_zip (analyze_origins h).flip hp
    exact Origin.confined horigin
  refine ⟨hrules.wellPlaced hconfined, ?_⟩
  exact (hrules.simplify (program_closed h)).wellPlaced (Stmt.confined_simplifyAll program hconfined)

/-- A class that is declared in a loop. Its method loops over its own field, leaves that loop from a
branch that is always taken, and declares a function that returns nothing. -/
private def steeping : Tree.Program :=
  let p := Pos.start
  [.loop (.bool true p)
    [.cls "Pot" [⟨"cups", .array (.named "pump" p) p, p⟩]
      [.mk "first" [] (some (.named "pump" p))
        [.function (.mk "rest" [] none [.ret none p] p p),
          .forEach "cup" p (.member (.shot p) "cups" p)
            [.branch (.mk (.bool true p) [.leave p] p .nothing p)] p p,
          .ret (some (.index (.member (.shot p) "cups" p) (.int "0" p) p)) p] p p] p,
      .leave p] p p]

theorem analyze_wellPlaced_steeping : ∃ program, analyze steeping = .ok program ∧
    program.WellPlaced ∧ program.simplify.WellPlaced ∧
    program.sites.length = 9 ∧ program.simplify.sites.length = 8 := by
  have hrun : ∃ program, analyze steeping = .ok program ∧
      program.sites.length = 9 ∧ program.simplify.sites.length = 8 := ⟨_, rfl, rfl, rfl⟩
  obtain ⟨program, hanalyze, hsites, hsimplified⟩ := hrun
  obtain ⟨hplaced, hplaced'⟩ := analyze_wellPlaced steeping program hanalyze
  exact ⟨program, hanalyze, hplaced, hplaced', hsites, hsimplified⟩

end PeakLang.Analysis
