import PeakLang.Proofs.Analysis.Recast
import PeakLang.Proofs.Tree.Renamed

namespace PeakLang

/-- Recasting that gives other names. -/
def Recasting.ofRenaming (r : Renaming) : Recasting where
  names := r
  move := id
  opens _ := false
  type := TypeExpr.renamed r
  types := TypeExpr.renamedAll r
  expr := Tree.Expr.renamed r
  exprs := Tree.Expr.renamedAll r

/-- Giving other names in statements. -/
def Recasting.ofRenamingStatements (r : Renaming) : (ofRenaming r).Statements where
  stmt := Tree.Stmt.renamed r
  func := Tree.Func.renamed r
  branch := Tree.Branch.renamed r
  otherwise := Tree.Otherwise.renamed r
  stmts := Tree.Stmt.renamedAll r
  funcs := Tree.Func.renamedAll r

namespace Analysis

variable (r : Renaming)

theorem Fault.kind_renamed (fault : Fault) : (fault.renamed r).kind = fault.kind := by
  cases fault <;> rfl

/-- Analysis does not depend on how names are spelled. A renamed program is let through just if the
program is, its typed tree is the renamed one, and its fault is of the same kind at the same
position. -/
theorem analyze_renamed (program : Tree.Program) :
    ((∃ p, analyze (program.renamed r) = .ok p) ↔ ∃ p, analyze program = .ok p) ∧
      (∀ p, analyze program = .ok p → analyze (program.renamed r) = .ok (Typed.Program.renamed r p)) ∧
      ∀ e, analyze program = .error e →
        ∃ e', analyze (program.renamed r) = .error e' ∧ e'.fault.kind = e.fault.kind ∧
          e'.pos = e.pos := by
  have hrenamed := analyze_recast_unopened (Recasting.ofRenamingStatements r) rfl program
  rw [show analyze (program.renamed r) = _ from hrenamed]
  cases analyze program with
  | ok p =>
    refine ⟨⟨fun _ => ⟨p, rfl⟩, fun _ => ⟨_, rfl⟩⟩, ?_, ?_⟩
    · rintro _ ⟨⟩
      rfl
    · intro e he
      cases he
  | error e =>
    refine ⟨⟨?_, ?_⟩, ?_, ?_⟩
    · rintro ⟨p, hp⟩
      cases hp
    · rintro ⟨p, hp⟩
      cases hp
    · intro p hp
      cases hp
    · rintro _ ⟨⟩
      exact ⟨_, rfl, e.fault.kind_renamed r, rfl⟩

/-- A function whose parameter hides a variable of the same name. -/
private def frothing : Tree.Program :=
  [.declare "milk" false (.int "1" ⟨1, 12⟩) ⟨1, 5⟩,
   .function (.mk "foam" [⟨"milk", .named "pump" ⟨2, 17⟩, ⟨2, 11⟩⟩] (some (.named "pump" ⟨2, 26⟩))
    [.ret (some (.name "milk" ⟨2, 39⟩)) ⟨2, 33⟩] ⟨2, 31⟩ ⟨2, 6⟩),
   .print (.call (.name "foam" ⟨3, 8⟩) [.name "milk" ⟨3, 13⟩] ⟨3, 12⟩) ⟨3, 1⟩]

/-- The function and the variable with their names exchanged. -/
private def frothed : Typed.Program :=
  [.declare (some ⟨9, "foam", .pump, false, false⟩) (.int 1),
   .function (some ⟨10, "milk", some ⟨[.pump], .pump⟩, false⟩)
    [some ⟨11, "foam", .pump, false, false⟩] [.ret (.var (some ⟨11, "foam", .pump, false, false⟩))],
   .print (.call (.function (some ⟨10, "milk", some ⟨[.pump], .pump⟩, false⟩))
    [.var (some ⟨9, "foam", .pump, false, false⟩)] .pump)]

theorem analyze_renamed_frothing :
    analyze (frothing.renamed (.swap "milk" "foam" (by decide) (by decide))) = .ok frothed := by
  obtain ⟨-, hok, -⟩ := analyze_renamed (.swap "milk" "foam" (by decide) (by decide)) frothing
  exact hok _ rfl

end Analysis

end PeakLang
