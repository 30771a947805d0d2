import PeakLang.Proofs.Js.Numbering
import PeakLang.Proofs.Typed.Closed
import PeakLang.Proofs.Typed.Complete

namespace PeakLang.Js

open Typed (Binder)

namespace Expr

mutual

/-- Whether an expression has all its parts: nothing stands for an expression that was not there, and
every name is that of an entity. -/
def complete : Expr → Bool
  | undefined | dangling => false
  | int _ | float _ | string _ | bool _ | name _ | code _ | this => true
  | paren inner => inner.complete
  | unary _ operand => operand.complete
  | binary _ left right => left.complete && right.complete
  | conditional test consequent alternate =>
    test.complete && consequent.complete && alternate.complete
  | call callee args => callee.complete && completeAll args
  | new cls args => cls.complete && completeAll args
  | index object i => object.complete && i.complete
  | member object m => object.complete && m.complete
  | array elements => completeAll elements

def completeAll : List Expr → Bool
  | [] => true
  | e :: rest => e.complete && completeAll rest

end

end Expr

mutual

/-- Whether a statement has all its parts. -/
def Stmt.complete : Stmt → Bool
  | .declare name init => name.complete && init.complete
  | .function name params body =>
    name.complete && Expr.completeAll params && Stmt.completeAll body
  | .cls name fields methods =>
    name.complete && Expr.completeAll fields && Method.completeAll methods
  | .assign target source => target.complete && source.complete
  | .bump _ target => target.complete
  | .branch decision => decision.complete
  | .loop test body => test.complete && Stmt.completeAll body
  | .forOf name collection body => name.complete && collection.complete && Stmt.completeAll body
  | .leave | .ret none => true
  | .ret (some value) => value.complete
  | .log value => value.complete
  | .eval value => value.complete

def Method.complete : Method → Bool
  | .mk name params body => name.complete && Expr.completeAll params && Stmt.completeAll body

def Branch.complete : Branch → Bool
  | .mk test body otherwise => test.complete && Stmt.completeAll body && otherwise.complete

def Otherwise.complete : Otherwise → Bool
  | .nothing => true
  | .block body => Stmt.completeAll body
  | .chain next => next.complete

def Stmt.completeAll : List Stmt → Bool
  | [] => true
  | s :: rest => s.complete && Stmt.completeAll rest

def Method.completeAll : List Method → Bool
  | [] => true
  | m :: rest => m.complete && Method.completeAll rest

end

def Program.complete (program : Program) : Bool := Stmt.completeAll program

theorem Stmt.completeAll_append (ss ts : List Stmt) :
    Stmt.completeAll (ss ++ ts) = (Stmt.completeAll ss && Stmt.completeAll ts) := by
  induction ss with
  | nil => rfl
  | cons s rest ih =>
    rw [List.cons_append, Stmt.completeAll, Stmt.completeAll, ih, Bool.and_assoc]

theorem Stmt.completeAll_singleton (s : Stmt) : Stmt.completeAll [s] = s.complete := Bool.and_true _

theorem otherwiseOf_complete (count : Nat) (body : List Stmt) :
    (otherwiseOf count body).complete = Stmt.completeAll body := by
  unfold otherwiseOf
  split
  · rw [Stmt.completeAll_singleton]
    rfl
  · rfl

section Parts

variable {spell : EntityKey → Text} {x y : Expr}

theorem operation_complete {op : TokenKind} {signed : Bool} {type : Ty} (hx : x.complete = true)
    (hy : y.complete = true) : (operation op signed x y type).complete = true := by
  unfold operation
  split <;> split <;> simp [Expr.complete, Expr.completeAll, hx, hy]

theorem memberValue_complete {isField : Bool} (hx : x.complete = true) (hy : y.complete = true) :
    (memberValue x y isField).complete = true := by
  cases isField <;> simp [memberValue, Expr.complete, Expr.completeAll, hx, hy]

theorem namedVar_complete {v : Option Variable} (h : Typed.isTypedVariable v = true) :
    (namedVar spell v).complete = true := by
  obtain ⟨w, rfl, -⟩ := Typed.isTypedVariable_iff.mp h
  rw [namedVar]
  split <;> rfl

theorem namedFunction_complete (f : Function) : (namedFunction spell (some f)).complete = true := by
  rw [namedFunction]
  split <;> rfl

theorem completeAll_map {α : Type} {f : α → Expr} {as : List α} (h : ∀ a ∈ as, (f a).complete = true) :
    Expr.completeAll (as.map f) = true := by
  induction as with
  | nil => rfl
  | cons a rest ih =>
    obtain ⟨ha, hrest⟩ := List.forall_mem_cons.mp h
    exact Bool.and_eq_true_iff.mpr ⟨ha, ih hrest⟩

theorem params_complete {params : List (Option Variable)}
    (h : ∀ p ∈ params, Typed.isTypedVariable p = true) :
    Expr.completeAll (params.map (namedVar spell)) = true :=
  completeAll_map fun p hp => namedVar_complete (h p hp)

end Parts

section Generation

variable (spell : EntityKey → Text)

mutual

/-- The JavaScript of an expression without issues has all its parts. -/
theorem expr_complete (e : Typed.Expr) {place : Text} (h : e.issues place = []) :
    (namedExpr spell e).complete = true := by
  cases e with
  | missing => cases h
  | int | float | string | bool | self | emptyArray => rfl
  | var v =>
    rw [Typed.Expr.issues, Typed.Issue.when_eq_nil, Bool.not_eq_false'] at h
    exact namedVar_complete h
  | function f =>
    rw [Typed.Expr.issues, Typed.Issue.when_eq_nil, Bool.not_eq_false', Option.any_eq_true] at h
    obtain ⟨g, rfl, -⟩ := h
    exact namedFunction_complete g
  | cls c type =>
    rw [Typed.Expr.issues, Typed.Issue.when_eq_nil, Bool.or_eq_false_iff,
      Option.isNone_eq_false_iff] at h
    obtain ⟨k, rfl⟩ := Option.isSome_iff_exists.mp h.1
    rfl
  | unary op operand type =>
    rw [Typed.Expr.issues, List.append_eq_nil_iff] at h
    exact expr_complete operand h.2
  | binary op left right type =>
    rw [Typed.Expr.issues, List.append_eq_nil_iff, List.append_eq_nil_iff] at h
    exact operation_complete (expr_complete left h.1.2) (expr_complete right h.2)
  | conditional test consequent alternate type =>
    rw [Typed.Expr.issues, List.append_eq_nil_iff, List.append_eq_nil_iff,
      List.append_eq_nil_iff] at h
    obtain ⟨⟨⟨-, htest⟩, hconsequent⟩, halternate⟩ := h
    have hchoice := Bool.and_eq_true_iff.mpr
      ⟨expr_complete test htest, expr_complete consequent hconsequent⟩
    exact Bool.and_eq_true_iff.mpr ⟨hchoice, expr_complete alternate halternate⟩
  | call callee args type =>
    rw [Typed.Expr.issues, List.append_eq_nil_iff, List.append_eq_nil_iff] at h
    obtain ⟨⟨-, hissues⟩, hargs⟩ := h
    have harguments := exprs_complete args hargs
    have hcallee := expr_complete callee hissues
    -- A class that is made and a method that is called are named where they stand.
    cases callee with
    | member object field method type =>
      cases method with
      | none => exact Bool.and_eq_true_iff.mpr ⟨hcallee, harguments⟩
      | some m =>
        rw [Typed.Expr.issues, List.append_eq_nil_iff] at hissues
        have hselected := Bool.and_eq_true_iff.mpr ⟨expr_complete object hissues.2, rfl⟩
        exact Bool.and_eq_true_iff.mpr ⟨hselected, harguments⟩
    | _ => exact Bool.and_eq_true_iff.mpr ⟨hcallee, harguments⟩
  | index object i type =>
    rw [Typed.Expr.issues, List.append_eq_nil_iff, List.append_eq_nil_iff] at h
    exact Bool.and_eq_true_iff.mpr ⟨expr_complete object h.1.2, expr_complete i h.2⟩
  | member object field method type =>
    rw [Typed.Expr.issues, List.append_eq_nil_iff, List.append_eq_nil_iff,
      Typed.Issue.when_eq_nil, Typed.Issue.when_eq_nil] at h
    obtain ⟨⟨-, hone⟩, hobject⟩ := h
    have hobject := expr_complete object hobject
    cases field with
    | some f => exact memberValue_complete hobject rfl
    | none =>
      cases method with
      | none => cases hone
      | some m => exact memberValue_complete hobject rfl
  | array elements type =>
    rw [Typed.Expr.issues, List.append_eq_nil_iff] at h
    exact exprs_complete elements h.2

theorem exprs_complete (es : List Typed.Expr) {place label : Text} {n : Nat}
    (h : Typed.Expr.issuesOfAll place label n es = []) :
    Expr.completeAll (namedExprs spell es) = true := by
  cases es with
  | nil => rfl
  | cons e rest =>
    rw [Typed.Expr.issuesOfAll, List.append_eq_nil_iff] at h
    exact Bool.and_eq_true_iff.mpr ⟨expr_complete e h.1, exprs_complete rest h.2⟩

end

/-- The parts of a class are those of its name, its fields and its methods, if it lists no method that
is missing. -/
theorem classOf_complete {c : Class} {name : Expr} {fields : List Expr} {methods : List Method}
    (hname : name.complete = true) (hfields : Expr.completeAll fields = true) :
    (classOf c name fields methods).complete = (c.isWhole && Method.completeAll methods) := by
  unfold classOf
  cases hwhole : c.isWhole with
  | false => rfl
  | true =>
    rw [if_pos rfl, Stmt.complete, hname, hfields]
    rfl

theorem all_isWhole_ofVars (vs : List (Option Variable)) :
    (Binder.ofVars vs).all Binder.isWhole = true := by
  refine List.all_eq_true.mpr fun b hb => ?_
  obtain ⟨v, -, hv⟩ := List.mem_filterMap.mp hb
  obtain ⟨w, -, rfl⟩ := Option.map_eq_some_iff.mp hv
  rfl

mutual

/-- The JavaScript of a statement without issues has all its parts exactly if every class in the
statement is whole. -/
theorem stmt_complete (s : Typed.Stmt) {place : Text} (h : s.issues place = []) :
    Stmt.completeAll (namedStmt spell s) = s.bound.all Binder.isWhole := by
  -- A statement that binds nothing is one statement of JavaScript.
  have hplain {x : Stmt} (hx : x.complete = true) : Stmt.completeAll [x] = true := by
    rwa [Stmt.completeAll_singleton]
  cases s with
  | missing | missingCall => cases h
  | declare v init =>
    rw [Typed.Stmt.issues, List.append_eq_nil_iff, Typed.Issue.when_eq_nil, Bool.not_eq_false'] at h
    rw [namedStmt, Stmt.completeAll_singleton, Stmt.complete, namedVar_complete h.1,
      expr_complete spell init h.2, Typed.Stmt.bound, all_isWhole_ofVars]
    rfl
  | function f params body =>
    simp only [Typed.Stmt.issues] at h
    split at h
    · rw [List.append_eq_nil_iff, Typed.paramIssues_eq_nil_iff] at h
      obtain ⟨⟨-, hparams⟩, hbody⟩ := h
      rw [namedStmt, Stmt.completeAll_singleton, Stmt.complete, namedFunction_complete,
        params_complete hparams, stmts_complete body hbody, Typed.Stmt.bound, List.all_append,
        List.all_append, all_isWhole_ofVars]
      rfl
    · cases h
  | cls c methods =>
    cases c with
    | none => cases h
    | some c =>
      rw [Typed.Stmt.issues, List.append_eq_nil_iff] at h
      have hfields : Expr.completeAll (c.fields.map (namedField spell)) = true :=
        completeAll_map fun _ _ => rfl
      rw [namedStmt, Stmt.completeAll_singleton, classOf_complete rfl hfields,
        methodBodies_complete methods h.2]
      rfl
  | assign target source =>
    rw [Typed.Stmt.issues, List.append_eq_nil_iff] at h
    exact hplain (Bool.and_eq_true_iff.mpr
      ⟨expr_complete spell target h.1, expr_complete spell source h.2⟩)
  | bump op target => exact hplain (expr_complete spell target h)
  | branch test consequent alternate =>
    rw [Typed.Stmt.issues, List.append_eq_nil_iff, List.append_eq_nil_iff] at h
    obtain ⟨⟨htest, hconsequent⟩, halternate⟩ := h
    rw [namedStmt, Stmt.completeAll_singleton, Stmt.complete, Branch.complete,
      expr_complete spell test htest, otherwiseOf_complete, stmts_complete consequent hconsequent,
      stmts_complete alternate halternate, Typed.Stmt.bound, List.all_append]
    rfl
  | shortBranch test consequent =>
    rw [Typed.Stmt.issues, List.append_eq_nil_iff] at h
    rw [namedStmt, Stmt.completeAll_singleton, Stmt.complete, Branch.complete,
      expr_complete spell test h.1, stmts_complete consequent h.2]
    exact Bool.and_true _
  | loop test body =>
    rw [Typed.Stmt.issues, List.append_eq_nil_iff] at h
    rw [namedStmt, Stmt.completeAll_singleton, Stmt.complete, expr_complete spell test h.1,
      stmts_complete body h.2]
    rfl
  | forEach v collection body =>
    rw [Typed.Stmt.issues, List.append_eq_nil_iff, List.append_eq_nil_iff, Typed.Issue.when_eq_nil,
      Bool.not_eq_false'] at h
    obtain ⟨⟨hv, hcollection⟩, hbody⟩ := h
    rw [namedStmt, Stmt.completeAll_singleton, Stmt.complete, namedVar_complete hv,
      expr_complete spell collection hcollection, stmts_complete body hbody, Typed.Stmt.bound,
      List.all_append, all_isWhole_ofVars]
    rfl
  | leave => rfl
  | ret value =>
    rcases Typed.Stmt.issues_ret.mp h with rfl | hvalue
    · rfl
    · have hvalue := expr_complete spell value hvalue
      cases value with
      | missing => rfl
      | _ => exact hplain hvalue
  | print value => exact hplain (expr_complete spell value h)
  | call callee args type => exact hplain (expr_complete spell (.call callee args type) h)

theorem stmts_complete (ss : List Typed.Stmt) {place : Text} {n : Nat}
    (h : Typed.Stmt.issuesOfAll place n ss = []) :
    Stmt.completeAll (namedStmts spell ss) = (Typed.Stmt.boundInAll ss).all Binder.isWhole := by
  cases ss with
  | nil => rfl
  | cons s rest =>
    rw [Typed.Stmt.issuesOfAll, List.append_eq_nil_iff] at h
    rw [namedStmts, Stmt.completeAll_append, stmt_complete s h.1, stmts_complete rest h.2,
      Typed.Stmt.boundInAll, List.all_append]

theorem methodBodies_complete (ms : List Typed.MethodBody) {place cls : Text}
    (h : Typed.MethodBody.issuesOfAll place cls ms = []) :
    Method.completeAll (namedMethods spell ms) =
      (Typed.MethodBody.boundInAll ms).all Binder.isWhole := by
  cases ms with
  | nil => rfl
  | cons m rest =>
    obtain ⟨m, params, body⟩ := m
    rw [Typed.MethodBody.issuesOfAll, List.append_eq_nil_iff] at h
    obtain ⟨hm, hrest⟩ := h
    simp only [Typed.MethodBody.issues] at hm
    split at hm
    · rw [List.append_eq_nil_iff, Typed.paramIssues_eq_nil_iff] at hm
      obtain ⟨⟨-, hparams⟩, hbody⟩ := hm
      rw [namedMethods, Method.completeAll, Method.complete, params_complete hparams,
        stmts_complete body hbody, methodBodies_complete rest hrest, Typed.MethodBody.boundInAll,
        Typed.MethodBody.bound, List.all_append, List.all_append, all_isWhole_ofVars]
      rfl
    · cases hm

end

end Generation

/-- The JavaScript of a program without issues has all its parts exactly if the program is whole. -/
theorem generate_complete {program : Typed.Program} (h : program.issues = []) :
    (generate program).complete = program.isWhole := by
  rw [generate, (stmts_follows program).spelled]
  exact stmts_complete _ program h

/-- The outline of a program comes of nodes and entities that are there: no line of it is a gap, the
line of an expression that is not there or that of an unknown statement. -/
structure Outlined (program : Typed.Program) : Prop where
  there : ∀ l ∈ program.outline, l.gap = false
  exprs : ∀ l ∈ program.outline, l.text ≠ "<nil>"
  stmts : ∀ l ∈ program.outline, l.text.startsWith "Unknown statement: " = false

theorem outlined_of_issues {program : Typed.Program} (h : program.issues = []) :
    Outlined program where
  there := fun l hl => (Typed.Program.outline_shown h l hl).there
  exprs := fun l hl => Line.ne_nil_of_opens (Typed.Program.outline_shown h l hl).opens
  stmts := fun l hl => Line.not_unknown_of_opens (Typed.Program.outline_shown h l hl).opens

/-- A program that is checked without an issue is there and can be simplified and outlined, and what
simplifying makes of it can be outlined, too. Simplifying follows the call of a call statement and no
other reference, and no call is missing at any depth; an outline meets nothing that is not there.

The check does not look at the methods that a class lists, and generating follows all of them. So the
JavaScript of either program has all its parts exactly if no class in it lists a method that is missing,
and simplifying brings in no such class. -/
theorem checked_renders {program : Option Typed.Program} (h : Typed.issues program = []) :
    ∃ p, program = some p ∧ (∀ s ∈ Typed.Stmt.partsOfAll p, s ≠ .missingCall) ∧
      Outlined p ∧ Outlined p.simplify ∧
      (generate p).complete = p.isWhole ∧ (generate p.simplify).complete = p.simplify.isWhole ∧
      (p.isWhole = true → p.simplify.isWhole = true) := by
  cases program with
  | none => cases h
  | some p =>
    have hp : p.issues = [] := h
    have hsimple : p.simplify.issues = [] := Typed.Stmt.issuesOfAll_simplify p hp "program" 0
    exact ⟨p, rfl, Typed.Program.parts_ne_missingCall hp, outlined_of_issues hp,
      outlined_of_issues hsimple, generate_complete hp, generate_complete hsimple,
      Typed.Program.isWhole_simplify⟩

/-- A class whose method gives a field and is called, also without being called at once, and a return
without a value. -/
private def furnished : Typed.Program :=
  let cup : ClassRef := ⟨9, "Cup"⟩
  let size : Field := ⟨9, 0, "size", .pump⟩
  let fill : PeakLang.Method := ⟨9, 0, "fill", some ⟨[.pump], .pump⟩⟩
  let n : Variable := ⟨10, "n", .pump, false, false⟩
  let c : Variable := ⟨11, "c", .cls cup, true, false⟩
  let member := Typed.Expr.member (.var (some c)) none (some fill) (.function [.pump] .pump)
  [.cls (some ⟨cup, [size], [some fill]⟩)
      [.mk (some fill) [some n]
        [.ret (.binary .plus (.member (.self (some cup)) (some size) none .pump) (.var (some n))
          .pump)]],
    .function (some ⟨12, "pour", some ⟨[.cls cup], .none⟩, false⟩) [some c]
      [.call member [.int 1] .pump, .print member, .ret .missing]]

theorem checked_renders_furnished :
    Typed.issues (some furnished) = [] ∧ furnished.outline.length = 21 ∧ furnished.isWhole = true ∧
      Outlined furnished.simplify ∧ (generate furnished).complete = true ∧
      (generate furnished.simplify).complete = true := by
  have hvalid : Typed.issues (some furnished) = [] := rfl
  have hwhole : furnished.isWhole = true := rfl
  obtain ⟨p, hp, -, -, houtline, hgenerated, hsimple, hkept⟩ := checked_renders hvalid
  cases hp
  exact ⟨hvalid, rfl, hwhole, houtline, hgenerated.trans hwhole, hsimple.trans (hkept hwhole)⟩

/-- A class that lists a method that is missing, with a body for another method. -/
private def unfilled : Typed.Program :=
  [.cls (some ⟨⟨9, "Cup"⟩, [], [none]⟩) [.mk (some ⟨9, 0, "fill", some ⟨[], .none⟩⟩) [] []]]

/-- A variable whose name breaks the line of its reference in two places. -/
private def broken : Typed.Program :=
  [.print (.var (some ⟨9, "x\n    <nil>\n    Var: y", .pump, false, false⟩))]

/-- The check lets a class through that cannot be generated. It looks at no name, either, and an outline
that is written out has the line breaks of the names in it. -/
theorem not_complete_unfilled :
    Typed.issues (some unfilled) = [] ∧ (generate unfilled).complete = false ∧
      Typed.issues (some broken) = [] ∧
      broken.outline.render = "Program\n  PrintStmt\n    Var: x\n    <nil>\n    Var: y <pump>\n" := by
  decide +kernel

end PeakLang.Js
