import PeakLang.Js.Generate
import PeakLang.Proofs.Typed.Unlocked

namespace PeakLang.Js

variable {opens : Text → Bool}

theorem varName_unlocked (v : Option Variable) : varName (v.map (Variable.unlocked opens)) = varName v := by
  cases v <;> rfl

theorem params_unlocked (params : List (Option Variable)) :
    (params.map (Option.map (Variable.unlocked opens))).mapM varName = params.mapM varName := by
  induction params with
  | nil => rfl
  | cons p rest ih => rw [List.map_cons, List.mapM_cons, List.mapM_cons, varName_unlocked, ih]

theorem startsWithSign_unlocked (e : Typed.Expr) : startsWithSign (e.unlocked opens) = startsWithSign e := by
  cases e <;> rfl

mutual

theorem expr_unlocked (e : Typed.Expr) : expr (e.unlocked opens) = expr e := by
  cases e with
  | var v => exact varName_unlocked v
  | unary op operand type =>
    rw [Typed.Expr.unlocked, expr, expr_unlocked operand, expr]
  | binary op left right type =>
    rw [Typed.Expr.unlocked, expr, expr_unlocked left, expr_unlocked right, startsWithSign_unlocked,
      expr]
  | conditional test consequent alternate type =>
    rw [Typed.Expr.unlocked, expr, expr_unlocked test, expr_unlocked consequent,
      expr_unlocked alternate, expr]
  | call callee args type =>
    have hargs := exprs_unlocked args
    have hcallee := expr_unlocked callee
    -- The generator looks at what is called; no variable is among what it asks for.
    cases callee with
    | cls c type =>
      rw [Typed.Expr.unlocked, Typed.Expr.unlocked, expr, hargs, expr]
    | member object field method type =>
      have hobject := expr_unlocked object
      cases method with
      | none =>
        simp only [Typed.Expr.unlocked] at hcallee ⊢
        simp only [expr, hargs, hcallee]
      | some m => rw [Typed.Expr.unlocked, Typed.Expr.unlocked, expr, hargs, hobject, expr]
    | _ =>
      simp only [Typed.Expr.unlocked] at hcallee ⊢
      simp only [expr] at hcallee ⊢
      simp only [hargs, hcallee]
  | index object i type =>
    rw [Typed.Expr.unlocked, expr, expr_unlocked object, expr_unlocked i, expr]
  | member object field method type =>
    cases field with
    | none => rw [Typed.Expr.unlocked, expr, expr_unlocked object, expr]
    | some f => rw [Typed.Expr.unlocked, expr, expr_unlocked object, expr]
  | array elements type => rw [Typed.Expr.unlocked, expr, exprs_unlocked elements, expr]
  | _ => rfl

theorem exprs_unlocked (es : List Typed.Expr) : exprs (Typed.Expr.unlockedAll opens es) = exprs es := by
  cases es with
  | nil => rfl
  | cons e rest =>
    rw [Typed.Expr.unlockedAll, exprs, expr_unlocked e, exprs_unlocked rest, exprs]

end

mutual

theorem stmt_unlocked (s : Typed.Stmt) : stmt (s.unlocked opens) = stmt s := by
  cases s with
  | declare v init => rw [Typed.Stmt.unlocked, stmt, varName_unlocked, expr_unlocked, stmt]
  | function f params body =>
    rw [Typed.Stmt.unlocked, stmt, params_unlocked, stmts_unlocked body, stmt]
  | cls c methods =>
    cases c with
    | none => rfl
    | some c => rw [Typed.Stmt.unlocked, stmt, methodBodies_unlocked methods, stmt]
  | assign target source => rw [Typed.Stmt.unlocked, stmt, expr_unlocked, expr_unlocked, stmt]
  | bump op target => rw [Typed.Stmt.unlocked, stmt, expr_unlocked, stmt]
  | branch test consequent alternate =>
    rw [Typed.Stmt.unlocked, stmt, expr_unlocked, stmts_unlocked consequent, stmts_unlocked alternate,
      Typed.Stmt.length_unlockedAll, stmt]
  | shortBranch test consequent =>
    rw [Typed.Stmt.unlocked, stmt, expr_unlocked, stmts_unlocked consequent, stmt]
  | loop test body => rw [Typed.Stmt.unlocked, stmt, expr_unlocked, stmts_unlocked body, stmt]
  | forEach v collection body =>
    rw [Typed.Stmt.unlocked, stmt, varName_unlocked, expr_unlocked, stmts_unlocked body, stmt]
  | ret value =>
    have hvalue : expr (value.unlocked opens) = expr value := expr_unlocked value
    cases value with
    | var | unary | binary | conditional | call | index | member | array =>
      simp only [Typed.Stmt.unlocked, Typed.Expr.unlocked] at hvalue ⊢
      simp only [stmt, hvalue]
    | _ => rfl
  | print value => rw [Typed.Stmt.unlocked, stmt, expr_unlocked, stmt]
  | call callee args type =>
    have hcall : expr (.call (callee.unlocked opens) (Typed.Expr.unlockedAll opens args) type) = _ :=
      expr_unlocked (.call callee args type)
    rw [Typed.Stmt.unlocked, stmt, hcall, stmt]
  | missing | leave | missingCall => rfl

theorem stmts_unlocked (ss : List Typed.Stmt) : stmts (Typed.Stmt.unlockedAll opens ss) = stmts ss := by
  cases ss with
  | nil => rfl
  | cons s rest =>
    rw [Typed.Stmt.unlockedAll, stmts, stmt_unlocked s, stmts_unlocked rest, stmts]

theorem methodBodies_unlocked (ms : List Typed.MethodBody) :
    methodBodies (Typed.MethodBody.unlockedAll opens ms) = methodBodies ms := by
  cases ms with
  | nil => rfl
  | cons m rest =>
    obtain ⟨m, params, body⟩ := m
    rw [Typed.MethodBody.unlockedAll, Typed.MethodBody.unlocked, methodBodies, params_unlocked,
      stmts_unlocked body, methodBodies_unlocked rest, methodBodies]

end

/-- Programs that differ only in the marks on read-only variables have the same JavaScript, simplified
or not. -/
theorem generateText_of_unlocked {p q : Typed.Program} (h : p.unlocked opens = q.unlocked opens) :
    generateText p = generateText q ∧ generateText p.simplify = generateText q.simplify := by
  have htext (program : Typed.Program) : generateText (program.unlocked opens) = generateText program := by
    rw [generateText, generate, Typed.Program.unlocked, stmts_unlocked, generateText, generate]
  have hsimple : p.simplify.unlocked opens = q.simplify.unlocked opens := by
    rw [← p.simplify_unlocked, ← q.simplify_unlocked, h]
  rw [← htext p, ← htext q, h, ← htext p.simplify, ← htext q.simplify, hsimple]
  exact ⟨rfl, rfl⟩

end PeakLang.Js
