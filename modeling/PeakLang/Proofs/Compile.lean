import PeakLang.Compile
import PeakLang.Proofs.Analysis.Reread
import PeakLang.Proofs.Analysis.Typing
import PeakLang.Proofs.Analysis.Moved
import PeakLang.Proofs.Tree.Format
import PeakLang.Proofs.Typed.Check

namespace PeakLang

/-- A stage after parsing is rendered. -/
theorem Stage.exists_renderer {stage : Stage} (h : stage ≠ .parsed) :
    ∃ r, stage.renderer? = some r := by
  cases stage with
  | parsed => exact absurd rfl h
  | analyzed | optimized | js => exact ⟨_, rfl⟩

namespace Tree.Parser.Result

theorem diagnostics_first?_eq_none_iff (r : Result) : r.diagnostics.first? = none ↔ r.faults = [] := by
  rw [Diagnostics.first?, Option.map_eq_none_iff, List.find?_eq_none]
  constructor
  · intro hnone
    have hsorted : r.diagnostics.sorted = [] := by
      rw [List.eq_nil_iff_forall_not_mem]
      intro d hd
      have hrecorded : d ∈ r.diagnostics := (List.mergeSort_perm _ _).mem_iff.mp hd
      obtain ⟨f, -, rfl⟩ := List.mem_map.mp hrecorded
      exact hnone _ hd rfl
    have hlength : r.diagnostics.length = 0 := by
      rw [← (List.mergeSort_perm r.diagnostics _).length_eq]
      exact List.length_eq_zero_iff.mpr hsorted
    rw [diagnostics, List.length_map] at hlength
    exact List.length_eq_zero_iff.mp hlength
  · intro hfaults d hd
    rw [diagnostics, hfaults, List.map_nil, Diagnostics.sorted, List.mergeSort_nil] at hd
    cases hd

/-- A result is accepted if no fault was found. -/
theorem accepted_eq_ok_iff {r : Result} {p : Program} :
    r.accepted = .ok p ↔ r.faults = [] ∧ r.program = p := by
  rw [← diagnostics_first?_eq_none_iff, accepted]
  split
  case h_1 e herror => simp [herror]
  case h_2 hnone => simp [hnone]

end Tree.Parser.Result

namespace Compile

theorem parse_eq_ok_iff {source : Text} {tree : Tree.Program} :
    parse source = .ok tree ↔ Tree.Parser.parse source = ⟨tree, []⟩ := by
  rw [parse, mapError_eq_ok_iff, Tree.Parser.Result.accepted_eq_ok_iff]
  cases Tree.Parser.parse source
  simp [and_comm]

theorem analyze_eq_ok_iff {tree : Tree.Program} {program : Typed.Program} :
    analyze tree = .ok program ↔ Analysis.analyze tree = .ok program := mapError_eq_ok_iff

end Compile

/-- A source passes the check if it is parsed and analyzed without a fault. -/
theorem check_eq_ok_iff {source : Text} :
    check source = .ok () ↔ ∃ tree program, Tree.Parser.parse source = ⟨tree, []⟩ ∧
      Analysis.analyze tree = .ok program := by
  rw [check, bind_eq_ok_iff]
  simp only [bind_eq_ok_iff, Compile.parse_eq_ok_iff, Compile.analyze_eq_ok_iff, pure_eq_ok_iff,
    and_true, exists_and_left]

/-- A source fails the check for its first fault in parsing, or else in analysis. -/
theorem check_eq_error_iff {source : Text} {e : CompileError} :
    check source = .error e ↔ Compile.parse source = .error e ∨
      ∃ tree, Compile.parse source = .ok tree ∧ Compile.analyze tree = .error e := by
  rw [check, bind_eq_error_iff]
  simp only [bind_eq_error_iff, pure, Except.pure, reduceCtorEq, and_false, exists_false, or_false]

namespace Compile

/-- The tree that is rendered for a target: simplified if the options ask for it. -/
def rendered (o : Options) (program : Typed.Program) : Typed.Program :=
  if simplifies o then program.simplify else program

variable {program : Typed.Program}

/-- What analysis gives lacks nothing. -/
theorem issues_of_analyze {tree : Tree.Program} (h : Analysis.analyze tree = .ok program) :
    program.issues = [] := by
  obtain ⟨s, hchecked⟩ := Analysis.analyze_checked h
  have hrules := hchecked.rules s.classes (List.Subset.refl _)
  exact hrules.issuesOfAll_eq_nil hchecked.step.sound.classes program "program" 0

/-- Simplifying a tree that lacks nothing leaves nothing out. -/
theorem issues_simplify (h : program.issues = []) :
    program.simplify.issues = [] := Typed.Stmt.issuesOfAll_simplify program h "program" 0

theorem issues_rendered {o : Options} (h : program.issues = []) :
    (rendered o program).issues = [] := by
  rw [rendered]
  split
  · exact issues_simplify h
  · exact h

/-- From analysis on nothing fails, whether or not the tree is simplified and validated. -/
theorem fromTree_eq {tree : Tree.Program} {o : Options} {r : Renderer}
    (hanalyze : Analysis.analyze tree = .ok program) (hrenderer : rendererFor o.emit = .ok r) :
    @fromTree Id _ (fun _ => pure ()) tree o = pure (render r (rendered o program)) := by
  have hvalid : requireValid (rendered o program) = .ok () := by
    rw [requireValid, issues_rendered (issues_of_analyze hanalyze)]
  calc @fromTree Id _ (fun _ => pure ()) tree o
      = do
        if o.validate then @fromTree.liftExcept Id _ _ (requireValid (rendered o program))
        return render r (rendered o program) := by
        rw [fromTree, analyze_eq_ok_iff.mpr hanalyze, hrenderer, rendered]
        cases simplifies o <;> cases o.validate <;> rfl
    _ = pure (render r (rendered o program)) := by
        rw [hvalid]
        cases o.validate <;> rfl

/-- A source that passes the check compiles to any stage after parsing. -/
theorem compile_eq_ok {source : Text} {tree : Tree.Program} {o : Options} {stage : Stage}
    {r : Renderer} (hparse : Tree.Parser.parse source = ⟨tree, []⟩)
    (hanalyze : Analysis.analyze tree = .ok program) (hemit : o.emit = .stage stage)
    (hrenderer : stage.renderer? = some r) :
    compile source o = .ok ⟨.stage stage, render r (rendered o program)⟩ := by
  obtain ⟨emit, optimize, validate⟩ := o
  obtain rfl : emit = .stage stage := hemit
  have hfor : rendererFor (.stage stage) = .ok r := by rw [rendererFor, hrenderer]
  calc compile source ⟨.stage stage, optimize, validate⟩
      = Id.run (ExceptT.run do
          let output ← @fromTree Id _ (fun _ => pure ()) tree ⟨.stage stage, optimize, validate⟩
          return ⟨.stage stage, output⟩) := by
        rw [compile, compileNoting, parse_eq_ok_iff.mpr hparse]
        cases stage with
        | parsed => cases hrenderer
        | analyzed | optimized | js => rfl
    _ = .ok ⟨.stage stage, render r (rendered ⟨.stage stage, optimize, validate⟩ program)⟩ := by
        rw [fromTree_eq hanalyze hfor]
        rfl

/-- Asking for no stage by name is asking for JavaScript. -/
theorem compile_orDefault (source : Text) (o : Options) :
    compile source { o with emit := o.emit.orDefault } = compile source o := by
  have htwice : o.emit.orDefault.orDefault = o.emit.orDefault := by
    cases o.emit with
    | stage stage => rfl
    | unknown name => cases name <;> rfl
  rw [compile, compile, compileNoting, compileNoting, htwice]

/-- A source that does not pass the check compiles to no stage after parsing, for the same reason. -/
theorem compile_eq_error {source : Text} {o : Options} {stage : Stage} {e : CompileError}
    (hcheck : check source = .error e) (hemit : o.emit = .stage stage) (hstage : stage ≠ .parsed) :
    compile source o = .error e := by
  obtain ⟨emit, optimize, validate⟩ := o
  obtain rfl : emit = .stage stage := hemit
  rw [compile, compileNoting]
  rcases check_eq_error_iff.mp hcheck with hparse | ⟨tree, hparse, hanalyze⟩
  · rw [hparse]
    rfl
  · have hfrom : @fromTree Id _ (fun _ => pure ()) tree ⟨.stage stage, optimize, validate⟩ =
        throw e := by
      rw [fromTree, hanalyze]
      rfl
    rw [hparse]
    cases stage with
    | parsed => exact absurd rfl hstage
    | analyzed | optimized | js =>
      exact congrArg (fun x : ExceptT CompileError Id Text =>
        Id.run (ExceptT.run do return Compiled.mk _ (← x))) hfrom

end Compile

/-- Compiling to a stage after parsing, or to no stage by name, fails exactly if the check does, and for
the same reason. No fault is left for the validation of typed trees: what analysis gives lacks nothing,
and neither does what it simplifies to. -/
theorem compile_eq_error_iff_check {source : Text} {o : Options}
    (hemit : o.emit ∈ [.ofName "", .ofName "analyzed", .ofName "optimized", .ofName "js"]) :
    (∀ e, compile source o = .error e ↔ check source = .error e) ∧
      ∀ tree program, Analysis.analyze tree = .ok program →
        program.issues = [] ∧ program.simplify.issues = [] := by
  obtain ⟨stage, hstage, hdefault⟩ :
      ∃ stage, stage ≠ Stage.parsed ∧ o.emit.orDefault = .stage stage := by
    simp only [List.mem_cons, List.not_mem_nil, or_false] at hemit
    rcases hemit with h | h | h | h
    · exact ⟨.js, by decide, by rw [h]; decide⟩
    · exact ⟨.analyzed, by decide, by rw [h]; decide⟩
    · exact ⟨.optimized, by decide, by rw [h]; decide⟩
    · exact ⟨.js, by decide, by rw [h]; decide⟩
  refine ⟨fun e => ?_, fun tree program hanalyze => ?_⟩
  · rw [← Compile.compile_orDefault]
    constructor
    · intro hcompile
      cases hcheck : check source with
      | error fault =>
        rw [Compile.compile_eq_error hcheck hdefault hstage] at hcompile
        cases hcompile
        rfl
      | ok =>
        -- A source that passes the check compiles.
        obtain ⟨tree, program, hparse, hanalyze⟩ := check_eq_ok_iff.mp hcheck
        obtain ⟨r, hrenderer⟩ := Stage.exists_renderer hstage
        rw [Compile.compile_eq_ok hparse hanalyze hdefault hrenderer] at hcompile
        cases hcompile
    · intro hcheck
      exact Compile.compile_eq_error hcheck hdefault hstage
  · have hissues := Compile.issues_of_analyze hanalyze
    exact ⟨hissues, Compile.issues_simplify hissues⟩

/-- A break in a function that is declared in a loop. -/
private def spilling : Text :=
  "item sip(n: pump) -> pump { blend n > 0 { item rest() -> pump { tamp serve 1 } } serve n } " ++
    "remake sip(1)"

theorem compile_eq_error_iff_check_spilling :
    Target.ofName "" ∈ [.ofName "", .ofName "analyzed", .ofName "optimized", .ofName "js"] ∧
      compile spilling ⟨.ofName "", true, true⟩ = .error (.analyze ⟨.breakOutsideLoop, ⟨1, 65⟩⟩) := by
  have hcheck : check spilling = .error (.analyze ⟨.breakOutsideLoop, ⟨1, 65⟩⟩) := by decide +kernel
  refine ⟨by decide, ?_⟩
  exact ((compile_eq_error_iff_check (o := ⟨.ofName "", true, true⟩) (by decide)).1 _).mpr hcheck

/-- The canonical text of a source that passes the check is the same program, up to positions, and
compiles to the same text at every stage after parsing. -/
theorem compile_format {source : Text} {o : Options} {stage : Stage} (hcheck : check source = .ok ())
    (hemit : o.emit = .stage stage) (hstage : stage ≠ .parsed) :
    (Tree.Parser.parse (Tree.Parser.parse source).program.format).faults = [] ∧
      (Tree.Parser.parse (Tree.Parser.parse source).program.format).program.unplaced =
        (Tree.Parser.parse source).program.unplaced ∧
      ∃ compiled, compile source o = .ok compiled ∧
        compile (Tree.Parser.parse source).program.format o = .ok compiled := by
  obtain ⟨tree, program, hparse, hanalyze⟩ := check_eq_ok_iff.mp hcheck
  rw [hparse]
  obtain ⟨hback, hreread⟩ := Analysis.analyze_reread hanalyze
  obtain ⟨hfaults, hsame⟩ :=
    Tree.Parser.parse_format_of_readsBack (Tree.Parser.parse_legible hparse) hback
  rw [hreread] at hsame
  obtain ⟨r, hrenderer⟩ := Stage.exists_renderer hstage
  have hagain : Tree.Parser.parse tree.format =
      ⟨(Tree.Parser.parse tree.format).program, []⟩ := by rw [← hfaults]
  have hanalyzeAgain := Analysis.analyze_eq_ok_of_unplaced hsame.symm hanalyze
  exact ⟨hfaults, hsame, _, Compile.compile_eq_ok hparse hanalyze hemit hrenderer,
    Compile.compile_eq_ok hagain hanalyzeAgain hemit hrenderer⟩

/-- A class, a method called on a sum, and a branch that simplifying decides. -/
private def tasting : Text :=
  "order Cup { size: pump item twice() -> pump { serve (shot.size + 0) * 2 } } " ++
    "let cup = Cup(-(-3)) brew 1 < 2 { remake [cup.twice()][0] ** 2 } pull { cup.size = 1 }"

theorem compile_format_tasting :
    check tasting = .ok () ∧
      (Tree.Parser.parse (Tree.Parser.parse tasting).program.format).faults = [] ∧
      (Tree.Parser.parse (Tree.Parser.parse tasting).program.format).program.unplaced =
        (Tree.Parser.parse tasting).program.unplaced ∧
      ∃ compiled, compile tasting .default = .ok compiled ∧
        compile (Tree.Parser.parse tasting).program.format .default = .ok compiled := by
  have hcheck : check tasting = .ok () := by decide +kernel
  exact ⟨hcheck, compile_format (o := .default) hcheck rfl nofun⟩

end PeakLang
