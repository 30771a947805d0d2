import PeakLang.Proofs.Analysis.Recast
import PeakLang.Proofs.Compile
import PeakLang.Proofs.Js.Unlocked
import PeakLang.Proofs.Tree.Same
import PeakLang.Proofs.Tree.Unlocked

namespace PeakLang

/-- Turning constants of statements into variables. -/
def Recasting.openingStatements (opens : Text → Bool) : (opening opens).Statements where
  stmt := Tree.Stmt.unlocked opens
  func := Tree.Func.unlocked opens
  branch := Tree.Branch.unlocked opens
  otherwise := Tree.Otherwise.unlocked opens
  stmts := Tree.Stmt.unlockedAll opens
  funcs := Tree.Func.unlockedAll opens
  stmt_cls name fields methods pos :=
    congrArg (Tree.Stmt.cls name · (Tree.Func.unlockedAll opens methods) pos)
      ((opening opens).map_field_plain fields).symm
  stmt_ret value pos := congrArg (Tree.Stmt.ret · pos) ((opening opens).map_expr_plain value).symm
  func_mk name params result body bodyPos pos :=
    congrArg₂ (Tree.Func.mk name · · (Tree.Stmt.unlockedAll opens body) bodyPos pos)
      ((opening opens).map_param_plain params).symm ((opening opens).map_type_plain result).symm

namespace Analysis

variable {opens : Text → Bool} {t t' : Tree.Program}

/-- Trees that differ only in which declarations of some names are those of constants are let through
together, if none of the names is written. Their typed trees differ only in the marks on the constants. -/
theorem analyze_eq_ok_of_unlocked (hwrites : ∀ n ∈ Tree.Stmt.writesOfAll t, opens n = false)
    (h : Tree.Stmt.unlockedAll opens t' = Tree.Stmt.unlockedAll opens t) {program : Typed.Program}
    (hok : analyze t = .ok program) :
    ∃ program', analyze t' = .ok program' ∧ program'.unlocked opens = program.unlocked opens := by
  have hsame : Tree.Stmt.writesOfAll t' = Tree.Stmt.writesOfAll t :=
    calc Tree.Stmt.writesOfAll t'
      _ = Tree.Stmt.writesOfAll (Tree.Stmt.unlockedAll opens t') :=
        (Tree.Stmt.writesOfAll_unlocked t').symm
      _ = Tree.Stmt.writesOfAll (Tree.Stmt.unlockedAll opens t) := by rw [h]
      _ = Tree.Stmt.writesOfAll t := Tree.Stmt.writesOfAll_unlocked t
  have hrecast := analyze_recast (Recasting.openingStatements opens) t hwrites
  have hrecast' := analyze_recast (Recasting.openingStatements opens) t' (hsame ▸ hwrites)
  rw [show (Recasting.openingStatements opens).stmts t' = Tree.Stmt.unlockedAll opens t from h]
    at hrecast'
  have hboth := hrecast'.trans hrecast.symm
  rw [hok] at hboth
  cases hok' : analyze t' with
  | error e =>
    rw [hok'] at hboth
    cases hboth
  | ok program' =>
    rw [hok'] at hboth
    have hview (p : Typed.Program) :
        Typed.Stmt.recastAll (Recasting.opening opens) p = p.unlocked opens :=
      congrArg (Typed.Stmt.unlockedAll opens) (Typed.Stmt.renamedAll_none p)
    refine ⟨program', rfl, ?_⟩
    rw [← hview, ← hview]
    exact Except.ok.inj hboth

end Analysis

/-- The advice to declare a variable as a constant is safe. Where a program that passes the check is said
never to reassign a variable, the declaration can be turned into that of a constant, and the tree with the
constant is let through and has the same JavaScript, simplified or not. -/
theorem neverReassigned_safe {source : Text} (h : check source = .ok ()) :
    ∃ tree program, Tree.Parser.parse source = ⟨tree, []⟩ ∧ Analysis.analyze tree = .ok program ∧
      ∀ x pos, (.neverReassigned x, pos) ∈ tree.remarks →
        tree.fixes x pos ≠ [] ∧ ∀ tree' ∈ tree.fixes x pos,
          ∃ program', Analysis.analyze tree' = .ok program' ∧
            Js.generateText program' = Js.generateText program ∧
            Js.generateText program'.simplify = Js.generateText program.simplify := by
  obtain ⟨tree, program, hparse, hok⟩ := check_eq_ok_iff.mp h
  refine ⟨tree, program, hparse, hok, fun x pos hremark => ?_⟩
  obtain ⟨hunwritten, hfixable⟩ := Tree.Program.fixes_of_remark hremark
  refine ⟨hfixable, fun tree' htree' => ?_⟩
  have hwrites (n : Text) (hn : n ∈ Tree.Stmt.writesOfAll tree) : (n == x) = false :=
    beq_eq_false_iff_ne.mpr (ne_of_mem_of_not_mem hn hunwritten)
  obtain ⟨program', hok', hunlocked⟩ := Analysis.analyze_eq_ok_of_unlocked hwrites
    (Tree.Stmt.unlockedAll_of_mem_fixes tree tree' htree') hok
  exact ⟨program', hok', Js.generateText_of_unlocked hunlocked⟩

/-- A variable of a function with the name of a global one. -/
private def measuring : Text :=
  "item f(p: pump) -> pump \x7b let n = p serve n \x7d let n = f(2)"

/-- The tree, in which the variable of the function may be a constant. -/
private def measuringTree (readOnly : Bool) : Tree.Program :=
  [.function (.mk "f" [⟨"p", .named "pump" ⟨1, 11⟩, ⟨1, 8⟩⟩] (some (.named "pump" ⟨1, 20⟩))
      [.declare "n" readOnly (.name "p" ⟨1, 35⟩) ⟨1, 31⟩,
       .ret (some (.name "n" ⟨1, 43⟩)) ⟨1, 37⟩] ⟨1, 25⟩ ⟨1, 6⟩),
   .declare "n" false (.call (.name "f" ⟨1, 55⟩) [.int "2" ⟨1, 57⟩] ⟨1, 56⟩) ⟨1, 51⟩]

private theorem parse_measuring : Tree.Parser.parse measuring = ⟨measuringTree false, []⟩ := by
  decide +kernel

theorem neverReassigned_safe_measuring :
    Tree.Parser.parse measuring = ⟨measuringTree false, []⟩ ∧
      (.neverReassigned "n", ⟨1, 31⟩) ∈ (measuringTree false).remarks ∧
      (measuringTree false).fixes "n" ⟨1, 31⟩ = [measuringTree true] ∧
      ∃ program program', Analysis.analyze (measuringTree false) = .ok program ∧
        Analysis.analyze (measuringTree true) = .ok program' ∧
        Js.generateText program' = Js.generateText program ∧
        Js.generateText program'.simplify = Js.generateText program.simplify := by
  have hremark : (.neverReassigned "n", ⟨1, 31⟩) ∈ (measuringTree false).remarks := by decide
  have hfixes : (measuringTree false).fixes "n" ⟨1, 31⟩ = [measuringTree true] := rfl
  have hcheck : check measuring = .ok () := check_eq_ok_iff.mpr ⟨_, _, parse_measuring, rfl⟩
  obtain ⟨tree, program, hparse, hok, hsafe⟩ := neverReassigned_safe hcheck
  obtain ⟨rfl, -⟩ := Tree.Parser.Result.mk.inj (hparse.symm.trans parse_measuring)
  obtain ⟨-, hfixed⟩ := hsafe "n" ⟨1, 31⟩ hremark
  obtain ⟨program', hok', htext⟩ := hfixed _ (hfixes ▸ List.mem_singleton_self _)
  exact ⟨hparse, hremark, hfixes, program, program', hok, hok', htext⟩

end PeakLang
