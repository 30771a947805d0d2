import PeakLang.Proofs.Analysis.Named
import PeakLang.Proofs.Js.Scoped

namespace PeakLang.Js

open Typed (Binder)

variable {names names' : Names} {source : Text}

/-- Whether every name that was given is a word of a source with a number. -/
def Names.Given (names : Names) : Prop :=
  ∀ key, ∀ n ∈ names.lookup key,
    ∃ source k, Lexeme.IsName source ∧ n = source ++ "_" ++ Text.ofNat k

namespace Names.Given

theorem nil : Names.Given [] := by
  intro key n hn
  cases hn

theorem of_extends (h : names'.Given) (hextends : names.Extends names') : names.Given :=
  fun key n hn => h key n (hextends key n hn)

theorem request (h : names.Given) (hsource : Lexeme.IsName source) (key : EntityKey) :
    (names.request key source).2.Given := by
  unfold Names.request
  split
  · exact h
  · intro key' n hn
    rw [List.lookup_append, Option.mem_def, Option.or_eq_some_iff] at hn
    obtain hn | ⟨-, hn⟩ := hn
    · exact h key' n hn
    · rw [List.lookup_cons] at hn
      split at hn
      · exact ⟨source, _, hsource, (Option.some.inj hn).symm⟩
      · cases hn

theorem requestAll (h : names.Given) {requests : List Request}
    (hrequests : ∀ r ∈ requests, Lexeme.IsName r.2) : (names.requestAll requests).Given := by
  induction requests generalizing names with
  | nil => exact h
  | cons r rest ih =>
    obtain ⟨hr, hrest⟩ := List.forall_mem_cons.mp hrequests
    exact ih (h.request hr r.1) hrest

end Names.Given

/-- Whether all that is bound has a name of the source, and is not built in. -/
def Sourced (env : List Binder) : Prop := ∀ b ∈ env, b.Named ∧ b.builtin = false

section Requests

variable {env : List Binder} {classes : List Class}

theorem ask_named {builtin : Bool} {key : EntityKey} (h : builtin = false → Lexeme.IsName source) :
    ∀ r ∈ if builtin then [] else [(key, source)], Lexeme.IsName r.2 := by
  cases builtin with
  | true => exact List.forall_mem_nil _
  | false => exact List.forall_mem_singleton.mpr (h rfl)

/-- What is not built in is bound, and has a name of the source. -/
theorem named_of_own (henv : Sourced env) {e : Entity} {b : Binder} (hflag : e.isBuiltin = b.builtin)
    (hbound : e ∈ Entity.builtins ∨ b ∈ env) (hown : b.builtin = false) : b.Named := by
  obtain hbuiltin | hbound := hbound
  · rw [← hflag, Entity.builtin_of_mem e hbuiltin] at hown
    cases hown
  · exact (henv b hbound).1

theorem askMethod_named {method : Option PeakLang.Method} (h : ∀ m ∈ method, Lexeme.IsName m.name) :
    ∀ r ∈ askMethod method, Lexeme.IsName r.2 := by
  cases method with
  | none => exact List.forall_mem_nil _
  | some m => exact List.forall_mem_singleton.mpr (h m rfl)

/-- The members of a class that is bound have names of the source. -/
theorem member_named (henv : Sourced env) {object type : Ty} {field : Option Field}
    {method : Option PeakLang.Method}
    (hrule : Typed.MemberRule (Binder.classes env) object field method type) :
    (∀ f ∈ field, Lexeme.IsName f.name) ∧ ∀ m ∈ method, Lexeme.IsName m.name := by
  cases hrule with
  | field hclass hfield =>
    obtain ⟨-, hfields, -⟩ := (henv _ (Binder.mem_classes.mp hclass)).1
    constructor
    · rintro _ ⟨⟩
      exact hfields _ hfield
    · rintro _ ⟨⟩
  | method hclass hmethod =>
    obtain ⟨-, -, hmethods⟩ := (henv _ (Binder.mem_classes.mp hclass)).1
    constructor
    · rintro _ ⟨⟩
    · rintro _ ⟨⟩
      exact hmethods _ hmethod _ rfl

mutual

/-- A closed expression asks for words of the source. -/
theorem askExpr_named (henv : Sourced env) (e : Typed.Expr) (hclosed : e.Closed env) :
    ∀ r ∈ askExpr e, Lexeme.IsName r.2 := by
  cases e with
  | missing | int | float | string | bool | self | emptyArray => exact List.forall_mem_nil _
  | var v =>
    obtain ⟨w, rfl, hbound⟩ := hclosed
    exact ask_named (named_of_own henv (b := .var w) rfl hbound)
  | function f =>
    obtain ⟨g, rfl, hbound⟩ := hclosed
    exact ask_named (named_of_own henv (b := .function g) rfl hbound)
  | cls c type =>
    obtain ⟨k, hbound, rfl, -⟩ := hclosed
    exact List.forall_mem_singleton.mpr (henv _ hbound).1.1
  | unary op operand type => exact askExpr_named henv operand hclosed
  | binary op left right type | index left right type =>
    exact List.forall_mem_append.mpr
      ⟨askExpr_named henv left hclosed.1, askExpr_named henv right hclosed.2⟩
  | conditional test consequent alternate type =>
    exact List.forall_mem_append.mpr ⟨askExpr_named henv test hclosed.1, List.forall_mem_append.mpr
      ⟨askExpr_named henv consequent hclosed.2.1, askExpr_named henv alternate hclosed.2.2⟩⟩
  | call callee args type =>
    have hargs := askExprs_named henv args hclosed.2
    have hcallee := askExpr_named henv callee hclosed.1
    cases callee with
    | member object field method type =>
      cases method with
      | some m =>
        obtain ⟨⟨hobject, hrule⟩, -⟩ := hclosed
        exact List.forall_mem_append.mpr ⟨hargs, List.forall_mem_append.mpr
          ⟨askExpr_named henv object hobject, askMethod_named (member_named henv hrule).2⟩⟩
      | none => exact List.forall_mem_append.mpr ⟨hargs, hcallee⟩
    | _ => exact List.forall_mem_append.mpr ⟨hargs, hcallee⟩
  | member object field method type =>
    have hobject := askExpr_named henv object hclosed.1
    obtain ⟨hfield, hmethod⟩ := member_named henv hclosed.2
    cases field with
    | some f =>
      exact List.forall_mem_append.mpr ⟨hobject, List.forall_mem_singleton.mpr (hfield f rfl)⟩
    | none => exact List.forall_mem_append.mpr ⟨hobject, askMethod_named hmethod⟩
  | array elements type => exact askExprs_named henv elements hclosed

theorem askExprs_named (henv : Sourced env) (es : List Typed.Expr)
    (hclosed : Typed.Expr.ClosedAll env es) : ∀ r ∈ askExprs es, Lexeme.IsName r.2 := by
  cases es with
  | nil => exact List.forall_mem_nil _
  | cons e rest =>
    exact List.forall_mem_append.mpr
      ⟨askExpr_named henv e hclosed.1, askExprs_named henv rest hclosed.2⟩

end

/-- Variables that are bound are asked for by words of the source. -/
theorem ofVars_named (henv : Sourced env) {vs : List (Option Variable)}
    (hbound : Binder.ofVars vs ⊆ env) : ∀ r ∈ vs.flatMap askVar, Lexeme.IsName r.2 := by
  rw [List.forall_mem_flatMap]
  intro v hv
  cases v with
  | none => exact List.forall_mem_nil _
  | some w =>
    have hw := henv _ (hbound (List.mem_filterMap.mpr ⟨some w, hv, rfl⟩))
    exact ask_named fun _ => hw.1

mutual

/-- A closed statement asks for words of the source. -/
theorem askStmt_named (henv : Sourced env) (s : Typed.Stmt) {function : Option Signature}
    (htyped : s.WellTyped classes function) (hclosed : s.Closed env) (hown : s.bound ⊆ env) :
    ∀ r ∈ askStmt s, Lexeme.IsName r.2 := by
  cases s with
  | missing | missingCall => cases htyped
  | leave => exact List.forall_mem_nil _
  | declare v init =>
    have hv := ofVars_named henv hown
    rw [List.flatMap_singleton] at hv
    exact List.forall_mem_append.mpr ⟨hv, askExpr_named henv init hclosed⟩
  | function f params body =>
    obtain ⟨g, sig, rfl, -, -, -, hbody⟩ := htyped
    obtain ⟨hf, hinside⟩ := List.append_subset.mp hown
    obtain ⟨hparams, hbound⟩ := List.append_subset.mp hinside
    have hclosed := Typed.Stmt.ClosedAll.mono body hclosed (List.append_subset.mpr
      ⟨hparams, List.append_subset.mpr ⟨hf, List.Subset.refl env⟩⟩)
    have hname := askExpr_named henv (.function (some g)) ⟨g, rfl, .inr (hf List.mem_cons_self)⟩
    exact List.forall_mem_append.mpr ⟨hname, List.forall_mem_append.mpr
      ⟨ofVars_named henv hparams, askStmts_named henv body hbody hclosed hbound⟩⟩
  | cls c methods =>
    obtain ⟨k, -, rfl, -, hbodies, hmethods⟩ := htyped
    obtain ⟨hc, hinside⟩ := List.append_subset.mp hown
    have hclosed := Typed.MethodBody.ClosedAll.mono methods hclosed
      (List.append_subset.mpr ⟨hc, List.Subset.refl env⟩)
    obtain ⟨hclass, hfieldNames, hmethodNames⟩ := (henv _ (hc List.mem_cons_self)).1
    have hnames : ∀ m ∈ methods.map Typed.MethodBody.method, ∀ n ∈ m, Lexeme.IsName n.name :=
      hbodies ▸ hmethodNames
    refine List.forall_mem_append.mpr ⟨List.forall_mem_singleton.mpr hclass,
      List.forall_mem_append.mpr ⟨?_, List.forall_mem_append.mpr
        ⟨?_, askMethods_named henv methods hmethods hnames hclosed hinside⟩⟩⟩
    · exact List.forall_mem_flatMap.mpr fun f hf => List.forall_mem_singleton.mpr (hfieldNames f hf)
    · exact List.forall_mem_flatMap.mpr fun m hm => askMethod_named (hmethodNames m hm)
  | assign target source =>
    exact List.forall_mem_append.mpr
      ⟨askExpr_named henv target hclosed.1, askExpr_named henv source hclosed.2⟩
  | bump op value | ret value | print value => exact askExpr_named henv value hclosed
  | branch test consequent alternate =>
    obtain ⟨hconsequent, halternate⟩ := List.append_subset.mp hown
    exact List.forall_mem_append.mpr ⟨askExpr_named henv test hclosed.1, List.forall_mem_append.mpr
      ⟨askStmts_named henv consequent htyped.2.2.1 hclosed.2.1 hconsequent,
        askStmts_named henv alternate htyped.2.2.2 hclosed.2.2 halternate⟩⟩
  | shortBranch test body | loop test body =>
    exact List.forall_mem_append.mpr ⟨askExpr_named henv test hclosed.1,
      askStmts_named henv body htyped.2.2 hclosed.2 hown⟩
  | forEach v collection body =>
    obtain ⟨hv, hbound⟩ := List.append_subset.mp hown
    have hbody := Typed.Stmt.ClosedAll.mono body hclosed.2
      (List.append_subset.mpr ⟨hv, List.Subset.refl env⟩)
    have hv := ofVars_named henv hv
    rw [List.flatMap_singleton] at hv
    exact List.forall_mem_append.mpr ⟨hv, List.forall_mem_append.mpr
      ⟨askExpr_named henv collection hclosed.1,
        askStmts_named henv body htyped.2.2 hbody hbound⟩⟩
  | call callee args type => exact askExpr_named henv (.call callee args type) hclosed

theorem askStmts_named (henv : Sourced env) (ss : List Typed.Stmt) {function : Option Signature}
    (htyped : Typed.Stmt.WellTypedAll classes function ss) (hclosed : Typed.Stmt.ClosedAll env ss)
    (hown : Typed.Stmt.boundInAll ss ⊆ env) : ∀ r ∈ askStmts ss, Lexeme.IsName r.2 := by
  cases ss with
  | nil => exact List.forall_mem_nil _
  | cons s rest =>
    obtain ⟨hs, hrest⟩ := List.append_subset.mp hown
    have hbinders := List.Subset.trans s.binders_subset_bound hs
    have hclosedRest := Typed.Stmt.ClosedAll.mono rest hclosed.2
      (List.append_subset.mpr ⟨hbinders, List.Subset.refl env⟩)
    exact List.forall_mem_append.mpr ⟨askStmt_named henv s htyped.1 hclosed.1 hs,
      askStmts_named henv rest htyped.2 hclosedRest hrest⟩

theorem askMethods_named (henv : Sourced env) (ms : List Typed.MethodBody)
    (htyped : Typed.MethodBody.WellTypedAll classes ms)
    (hnames : ∀ m ∈ ms.map Typed.MethodBody.method, ∀ n ∈ m, Lexeme.IsName n.name)
    (hclosed : Typed.MethodBody.ClosedAll env ms) (hown : Typed.MethodBody.boundInAll ms ⊆ env) :
    ∀ r ∈ askMethods ms, Lexeme.IsName r.2 := by
  cases ms with
  | nil => exact List.forall_mem_nil _
  | cons m rest =>
    obtain ⟨m, params, body⟩ := m
    obtain ⟨⟨_, _, -, -, -, hbody⟩, htypedRest⟩ := htyped
    obtain ⟨hm, hnamesRest⟩ := List.forall_mem_cons.mp hnames
    obtain ⟨hinside, hrest⟩ := List.append_subset.mp hown
    obtain ⟨hparams, hbound⟩ := List.append_subset.mp hinside
    have hclosedBody := Typed.Stmt.ClosedAll.mono body hclosed.1
      (List.append_subset.mpr ⟨hparams, List.Subset.refl env⟩)
    exact List.forall_mem_append.mpr ⟨askMethod_named hm, List.forall_mem_append.mpr
      ⟨ofVars_named henv hparams, List.forall_mem_append.mpr
        ⟨askStmts_named henv body hbody hclosedBody hbound,
          askMethods_named henv rest htypedRest hnamesRest hclosed.2 hrest⟩⟩⟩

end

/-- A program is generated with words of its source and numbers. -/
theorem program_given {program : Typed.Program} (hrules : program.WellTyped) (hclosed : program.Closed)
    (hnamed : Sourced (Typed.Stmt.boundInAll program)) : (stmts program []).2.Given := by
  have hall := Typed.Stmt.ClosedAll.mono program hclosed.references
    (List.nil_subset (Typed.Stmt.boundInAll program))
  rw [(stmts_follows program).names]
  exact Names.Given.nil.requestAll (askStmts_named hnamed program hrules hall (List.Subset.refl _))

/-- A closed expression is generated with words of the source and numbers. -/
theorem expr_given (hnamed : Sourced env) {e : Typed.Expr} (hclosed : e.Closed env)
    (hnames : names.Given) : (expr e names).2.Given := by
  rw [(expr_follows e).names]
  exact hnames.requestAll (askExpr_named hnamed e hclosed)

end Requests

end PeakLang.Js
