import PeakLang.Proofs.Analysis.Passes
import PeakLang.Proofs.Tree.Reread

namespace PeakLang.Analysis

open Typed (Expr)

section Expressions

variable {s : State} {t : Tree.Expr} {e : Expr}

/-- What is called is no array. -/
theorem Finds.callsArrayType {params : List Ty} {type : Ty} (h : Finds s t e)
    (htype : e.type = .function params type) (args : List Tree.Expr) :
    t.callsArrayType args = false := by
  have hnot : t.isArrayType = false := by
    cases h with
    | array => cases htype
    | _ => rfl
  rw [Tree.Expr.callsArrayType, hnot, Bool.false_and]

theorem reread_call {args : List Tree.Expr} {pos : Pos} (hnot : t.callsArrayType args = false)
    (ht : t.reread = t.unplaced) (hargs : Tree.Expr.rereadAll args = Tree.Expr.unplacedAll args) :
    (Tree.Expr.call t args pos).reread = (Tree.Expr.call t args pos).unplaced := by
  rw [Tree.Expr.reread, hnot, if_neg Bool.false_ne_true, Tree.Expr.unplaced, ht, hargs]

mutual

/-- An expression that is let through is read as it was. -/
theorem Finds.reread {t : Tree.Expr} {e : Expr} (h : Finds s t e) : t.reread = t.unplaced := by
  cases h with
  | int | float | string | bool | var | function | shot | emptyArray => rfl
  | unary ho | field ho | method ho => rw [Tree.Expr.reread, Tree.Expr.unplaced, ho.reread]
  | binary hl hr | index hl _ hr => rw [Tree.Expr.reread, Tree.Expr.unplaced, hl.reread, hr.reread]
  | conditional ht _ hc ha =>
    rw [Tree.Expr.reread, Tree.Expr.unplaced, ht.reread, hc.reread, ha.reread]
  | call hf htype has => exact reread_call (hf.callsArrayType htype _) hf.reread has.reread
  | new _ _ has => exact reread_call rfl rfl has.reread
  | array hf hfs =>
    rw [Tree.Expr.reread, Tree.Expr.unplaced, Tree.Expr.rereadAll, Tree.Expr.unplacedAll, hf.reread,
      hfs.reread]

theorem FindsAll.reread {ts : List Tree.Expr} {es : List Expr} (h : FindsAll s ts es) :
    Tree.Expr.rereadAll ts = Tree.Expr.unplacedAll ts := by
  cases h with
  | nil => rfl
  | cons he hes => rw [Tree.Expr.rereadAll, Tree.Expr.unplacedAll, he.reread, hes.reread]

end

theorem Finds.reread_call {args : List Tree.Expr} {pos : Pos} (h : Finds s (.call t args pos) e) :
    t.callsArrayType args = false ∧ t.reread = t.unplaced ∧
      Tree.Expr.rereadAll args = Tree.Expr.unplacedAll args := by
  cases h with
  | call hf htype has => exact ⟨hf.callsArrayType htype _, hf.reread, has.reread⟩
  | new _ _ has => exact ⟨rfl, rfl, has.reread⟩

/-- What is assigned to needs no parentheses. -/
theorem Finds.level (h : Finds s t e) (hplace : e.IsPlace) : t.level = 7 := by
  cases h with
  | unary | binary | conditional => cases hplace
  | _ => rfl

end Expressions

section Statements

mutual

/-- A statement that is let through reads back as it was. -/
theorem Passes.reread {s s' : State} {t : Tree.Stmt} {r : Typed.Stmt} (h : Passes s t r s') :
    t.readsBack = true ∧ t.reread = t.unplaced := by
  cases h with
  | declare hvalue | print hvalue =>
    exact ⟨rfl, by rw [Tree.Stmt.reread, Tree.Stmt.unplaced, hvalue.reread]⟩
  | function _ hbody =>
    obtain ⟨hback, hbody⟩ := hbody.reread
    refine ⟨hback, ?_⟩
    rw [Tree.Stmt.reread, Tree.Func.reread, Tree.Stmt.unplaced, Tree.Func.unplaced, hbody]
  | cls _ hbodies =>
    obtain ⟨hback, hbodies⟩ := hbodies.reread
    exact ⟨hback, by rw [Tree.Stmt.reread, Tree.Stmt.unplaced, hbodies]⟩
  | assign htarget hplace hsource =>
    refine ⟨beq_iff_eq.mpr (htarget.level hplace), ?_⟩
    rw [Tree.Stmt.reread, Tree.Stmt.unplaced, htarget.reread, hsource.reread]
  | bump htarget hplace =>
    refine ⟨beq_iff_eq.mpr (htarget.level hplace), ?_⟩
    rw [Tree.Stmt.reread, Tree.Stmt.unplaced, htarget.reread]
  | branch htest _ hbody hother | shortBranch htest _ hbody hother =>
    obtain ⟨hback, hbody⟩ := hbody.reread
    obtain ⟨hotherBack, hother⟩ := hother.reread
    refine ⟨by rw [Tree.Stmt.readsBack, Tree.Branch.readsBack, hback, hotherBack, Bool.and_self], ?_⟩
    rw [Tree.Stmt.reread, Tree.Branch.reread, Tree.Stmt.unplaced, Tree.Branch.unplaced, htest.reread,
      hbody, hother]
  | loop hvalue _ hbody | forEach hvalue _ _ hbody =>
    obtain ⟨hback, hbody⟩ := hbody.reread
    exact ⟨hback, by rw [Tree.Stmt.reread, Tree.Stmt.unplaced, hvalue.reread, hbody]⟩
  | leave | retNothing => exact ⟨rfl, rfl⟩
  | ret _ _ hvalue =>
    refine ⟨rfl, ?_⟩
    rw [Tree.Stmt.reread, Tree.Stmt.unplaced, Option.map_some, Option.map_some, hvalue.reread]
  | call hcall =>
    obtain ⟨hnot, hcallee, hargs⟩ := hcall.reread_call
    refine ⟨by rw [Tree.Stmt.readsBack, hnot, Bool.not_false], ?_⟩
    rw [Tree.Stmt.reread, Tree.Stmt.unplaced, hcallee, hargs]
termination_by sizeOf t

theorem PassesOther.reread {s s' : State} {o : Tree.Otherwise} {r : Option (List Typed.Stmt)}
    (h : PassesOther s o r s') : o.readsBack = true ∧ o.reread = o.unplaced := by
  cases h with
  | nothing => exact ⟨rfl, rfl⟩
  | block hbody =>
    obtain ⟨hback, hbody⟩ := hbody.reread
    exact ⟨hback, by rw [Tree.Otherwise.reread, Tree.Otherwise.unplaced, hbody]⟩
  | chain hnext =>
    obtain ⟨hback, hnext⟩ := hnext.reread
    rw [Tree.Stmt.reread, Tree.Stmt.unplaced, Tree.Stmt.branch.injEq] at hnext
    exact ⟨hback, by rw [Tree.Otherwise.reread, Tree.Otherwise.unplaced, hnext]⟩
termination_by sizeOf o + 1

theorem PassesAll.reread {s s' : State} {ts : List Tree.Stmt} {rs : List Typed.Stmt}
    (h : PassesAll s ts rs s') :
    Tree.Stmt.allReadBack ts = true ∧ Tree.Stmt.rereadAll ts = Tree.Stmt.unplacedAll ts := by
  cases h with
  | nil => exact ⟨rfl, rfl⟩
  | cons hr hrs =>
    obtain ⟨hback, hfirst⟩ := hr.reread
    obtain ⟨hrestBack, hrest⟩ := hrs.reread
    refine ⟨by rw [Tree.Stmt.allReadBack, hback, hrestBack, Bool.and_self], ?_⟩
    rw [Tree.Stmt.rereadAll, Tree.Stmt.unplacedAll, hfirst, hrest]
termination_by sizeOf ts

theorem PassesBody.reread {s s' : State} {params : List Tree.Param} {sig : Signature}
    {o : Scope.Overrides} {body : List Tree.Stmt} {vs : List (Option Variable)} {r : List Typed.Stmt}
    (h : PassesBody s params sig o body vs r s') :
    Tree.Stmt.allReadBack body = true ∧ Tree.Stmt.rereadAll body = Tree.Stmt.unplacedAll body := by
  cases h with
  | mk _ hbody => exact hbody.reread
termination_by sizeOf body + 1

theorem PassesMethods.reread {s s' : State} {ref : ClassRef} {funcs : List Tree.Func}
    {methods : List (Option Method)} {sigs : List Signature} {rs : List Typed.MethodBody}
    (h : PassesMethods ref s funcs methods sigs rs s') :
    Tree.Func.allReadBack funcs = true ∧
      Tree.Func.rereadAll funcs = Tree.Func.unplacedAll funcs := by
  cases h with
  | nil => exact ⟨rfl, rfl⟩
  | cons hbody hrest =>
    obtain ⟨hback, hbody⟩ := hbody.reread
    obtain ⟨hrestBack, hrest⟩ := hrest.reread
    refine ⟨by rw [Tree.Func.allReadBack, Tree.Func.readsBack, hback, hrestBack, Bool.and_self], ?_⟩
    rw [Tree.Func.rereadAll, Tree.Func.unplacedAll, Tree.Func.reread, Tree.Func.unplaced, hbody, hrest]
termination_by sizeOf funcs

end

/-- A program that is let through reads back as it was. -/
theorem analyze_reread {t : Tree.Program} {program : Typed.Program} (h : analyze t = .ok program) :
    t.readsBack = true ∧ t.reread = t.unplaced := by
  obtain ⟨s, hpasses⟩ := analyze_passes h
  exact hpasses.reread

end Statements

end PeakLang.Analysis
