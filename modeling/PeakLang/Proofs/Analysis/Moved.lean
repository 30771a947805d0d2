import PeakLang.Proofs.Analysis.Recast
import PeakLang.Proofs.Tree.Moved

namespace PeakLang

def Recasting.moving (f : Pos → Pos) : Recasting where
  names := .none
  move := f
  opens _ := false
  type := TypeExpr.moved f
  types := TypeExpr.movedAll f
  expr := Tree.Expr.moved f
  exprs := Tree.Expr.movedAll f

def Recasting.movingStatements (f : Pos → Pos) : (moving f).Statements where
  stmt := Tree.Stmt.moved f
  func := Tree.Func.moved f
  branch := Tree.Branch.moved f
  otherwise := Tree.Otherwise.moved f
  stmts := Tree.Stmt.movedAll f
  funcs := Tree.Func.movedAll f

namespace Analysis

variable {f : Pos → Pos}

/-- A fault at another position. -/
def SemanticError.moved (f : Pos → Pos) (e : SemanticError) : SemanticError := ⟨e.fault, f e.pos⟩

/-- The analysis of a moved program finds the same typed tree, or the same fault, moved. -/
theorem analyze_moved (program : Tree.Program) :
    analyze (program.moved f) = (analyze program).mapError (SemanticError.moved f) := by
  refine (analyze_recast_unopened (Recasting.movingStatements f) rfl program).trans ?_
  cases analyze program with
  | ok p => exact congrArg Except.ok (Typed.Stmt.renamedAll_none p)
  | error e =>
    exact congrArg (fun fault => Except.error (SemanticError.mk fault (f e.pos))) e.fault.renamed_none

/-- Trees that are equal up to positions have the same typed tree. -/
theorem analyze_eq_ok_of_unplaced {t t' : Tree.Program} (h : t.unplaced = t'.unplaced)
    {program : Typed.Program} (hok : analyze t = .ok program) : analyze t' = .ok program := by
  have hmoved (t : Tree.Program) : analyze t = .ok program ↔ analyze t.unplaced = .ok program := by
    rw [← mapError_eq_ok_iff (f := SemanticError.moved fun _ => .start) (x := analyze t),
      ← analyze_moved, Tree.Program.moved, Tree.Stmt.movedAll_start, Tree.Program.unplaced]
  rw [hmoved, ← h, ← hmoved]
  exact hok

end Analysis

end PeakLang
