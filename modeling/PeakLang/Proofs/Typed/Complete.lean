import PeakLang.Proofs.Typed.Calls
import PeakLang.Proofs.Typed.Check
import PeakLang.Typed.Outline

namespace PeakLang

namespace Line

/-- Whether a text starts as the line of a node does: with three bytes that start neither `<nil>` nor
`Unknown statement`. -/
def opens : Text → Bool
  | a :: b :: c :: _ => a != 60 && !(a == 85 && b == 110 && c == 107)
  | _ => false

theorem opens_append {label : Text} (h : opens label = true) (rest : Text) :
    opens (label ++ rest) = true := by
  unfold opens at h
  split at h
  · exact h
  · cases h

theorem ne_nil_of_opens {text : Text} (h : opens text = true) : text ≠ "<nil>" := by
  rintro rfl
  exact absurd h (by decide)

theorem not_unknown_of_opens {text : Text} (h : opens text = true) :
    text.startsWith "Unknown statement: " = false := by
  rw [Text.startsWith, Bool.eq_false_iff, ne_eq, List.isPrefixOf_iff_prefix]
  rintro ⟨rest, rfl⟩
  have hunknown : opens ("Unknown statement: " ++ rest) = false := rfl
  rw [hunknown] at h
  cases h

/-- A line for a node that is there. -/
structure Shown (l : Line) : Prop where
  there : l.gap = false
  opens : Line.opens l.text = true

theorem shown_entry {depth : Nat} {text : Text} (h : opens text = true) : (entry depth text).Shown :=
  ⟨rfl, h⟩

end Line

/-- Every line of a listing is for a node that is there. -/
def Listing.Shown (lines : Listing) : Prop := ∀ l ∈ lines, l.Shown

namespace Listing.Shown

variable {l : Line} {lines lines' : Listing}

theorem nil : Listing.Shown [] := nofun

theorem cons (hl : l.Shown) (h : Listing.Shown lines) : Listing.Shown (l :: lines) :=
  List.forall_mem_cons.mpr ⟨hl, h⟩

theorem append (h : Listing.Shown lines) (h' : Listing.Shown lines') :
    Listing.Shown (lines ++ lines') :=
  List.forall_mem_append.mpr ⟨h, h'⟩

theorem singleton (hl : l.Shown) : Listing.Shown [l] := .cons hl .nil

end Listing.Shown

namespace Typed

open Line (opens_append shown_entry)

theorem opens_typedLabel {label : Text} (h : Line.opens label = true) (type : Text) :
    Line.opens (typedLabel label type) = true :=
  opens_append (opens_append (opens_append h _) _) _

theorem knownLine_shown {label : Text} {type : Ty} (hlabel : Line.opens label = true)
    (htype : type.isTyped = true) (depth : Nat) : (knownLine depth label type).Shown := by
  rw [knownLine, if_pos htype]
  exact shown_entry (opens_typedLabel hlabel _)

theorem declaredLine_shown {label : Text} {v : Option Variable} (hlabel : Line.opens label = true)
    (hv : isTypedVariable v = true) (depth : Nat) : (declaredLine depth label v).Shown := by
  obtain ⟨w, rfl, -⟩ := isTypedVariable_iff.mp hv
  exact shown_entry (opens_typedLabel (opens_append hlabel _) _)

namespace Expr

mutual

/-- Every line in the outline of an expression without issues is for a node that is there. -/
theorem outline_shown (e : Expr) {place : Text} (h : e.issues place = []) (depth : Nat) :
    Listing.Shown (e.outline depth) := by
  cases e with
  | missing => cases h
  | int value =>
    apply Listing.Shown.singleton
    exact shown_entry (opens_append (by decide) _)
  | float value =>
    apply Listing.Shown.singleton
    exact shown_entry (opens_append (by decide) _)
  | string value =>
    apply Listing.Shown.singleton
    exact shown_entry (opens_append (by decide) _)
  | bool value =>
    apply Listing.Shown.singleton
    exact shown_entry (opens_append (by decide) _)
  | var v =>
    rw [issues, Issue.when_eq_nil, Bool.not_eq_false'] at h
    obtain ⟨w, rfl, -⟩ := isTypedVariable_iff.mp h
    apply Listing.Shown.singleton
    exact shown_entry (opens_typedLabel (opens_append (by decide) _) _)
  | function f =>
    rw [issues, Issue.when_eq_nil, Bool.not_eq_false', Option.any_eq_true] at h
    obtain ⟨g, rfl, hsignature⟩ := h
    obtain ⟨s, hs⟩ := Option.isSome_iff_exists.mp hsignature
    have htype : g.type.isTyped = true := by
      rw [Function.type, hs]
      rfl
    apply Listing.Shown.singleton
    exact knownLine_shown (opens_append (by decide) _) htype depth
  | cls c type =>
    rw [issues, Issue.when_eq_nil, Bool.or_eq_false_iff, Bool.not_eq_false',
      Option.isNone_eq_false_iff] at h
    obtain ⟨k, rfl⟩ := Option.isSome_iff_exists.mp h.1
    apply Listing.Shown.singleton
    exact knownLine_shown (opens_append (by decide) _) h.2 depth
  | self c =>
    rw [issues, Issue.when_eq_nil, Option.isNone_eq_false_iff] at h
    obtain ⟨k, rfl⟩ := Option.isSome_iff_exists.mp h
    apply Listing.Shown.singleton
    exact shown_entry (opens_typedLabel (by decide) _)
  | unary op operand type =>
    rw [issues, List.append_eq_nil_iff] at h
    apply Listing.Shown.cons
    · exact shown_entry (opens_typedLabel (opens_append (by decide) _) _)
    · exact outline_shown operand h.2 (depth + 1)
  | binary op left right type =>
    rw [issues, List.append_eq_nil_iff, List.append_eq_nil_iff] at h
    obtain ⟨⟨-, hleft⟩, hright⟩ := h
    apply Listing.Shown.cons
    · exact shown_entry (opens_typedLabel (opens_append (by decide) _) _)
    · exact .append (outline_shown left hleft _) (outline_shown right hright _)
  | conditional test consequent alternate type =>
    rw [issues, List.append_eq_nil_iff, List.append_eq_nil_iff, List.append_eq_nil_iff] at h
    obtain ⟨⟨⟨-, htest⟩, hconsequent⟩, halternate⟩ := h
    apply Listing.Shown.cons
    · exact shown_entry (opens_typedLabel (by decide) _)
    · apply Listing.Shown.append
      · exact .append (outline_shown test htest _) (outline_shown consequent hconsequent _)
      · exact outline_shown alternate halternate _
  | call callee args type =>
    rw [issues, List.append_eq_nil_iff, List.append_eq_nil_iff] at h
    obtain ⟨⟨-, hcallee⟩, hargs⟩ := h
    apply Listing.Shown.cons
    · exact shown_entry (opens_typedLabel (by decide) _)
    · exact .append (outline_shown callee hcallee _) (outlineAll_shown args hargs _)
  | index object i type =>
    rw [issues, List.append_eq_nil_iff, List.append_eq_nil_iff] at h
    obtain ⟨⟨-, hobject⟩, hi⟩ := h
    apply Listing.Shown.cons
    · exact shown_entry (opens_typedLabel (by decide) _)
    · exact .append (outline_shown object hobject _) (outline_shown i hi _)
  | member object field method type =>
    rw [issues, List.append_eq_nil_iff] at h
    apply Listing.Shown.cons
    · exact shown_entry (opens_typedLabel (opens_append (by decide) _) _)
    · exact outline_shown object h.2 (depth + 1)
  | array elements type =>
    rw [issues, List.append_eq_nil_iff, List.append_eq_nil_iff, Issue.when_eq_nil,
      Bool.not_eq_false'] at h
    obtain ⟨⟨htype, -⟩, helements⟩ := h
    apply Listing.Shown.cons
    · exact knownLine_shown (by decide) htype depth
    · exact outlineAll_shown elements helements _
  | emptyArray type =>
    rw [issues, Issue.when_eq_nil, Bool.not_eq_false'] at h
    apply Listing.Shown.singleton
    exact knownLine_shown (by decide) h depth

theorem outlineAll_shown (es : List Expr) {place label : Text} {n : Nat}
    (h : issuesOfAll place label n es = []) (depth : Nat) : Listing.Shown (outlineAll depth es) := by
  cases es with
  | nil => exact .nil
  | cons e rest =>
    rw [issuesOfAll, List.append_eq_nil_iff] at h
    exact .append (outline_shown e h.1 depth) (outlineAll_shown rest h.2 depth)

end

end Expr

/-- The lines of parameters that are there. -/
theorem paramsOutline_shown {params : List (Option Variable)}
    (h : ∀ p ∈ params, isTypedVariable p = true) (depth : Nat) :
    Listing.Shown (paramsOutline depth params) := by
  intro l hl
  obtain ⟨p, hp, rfl⟩ := List.mem_map.mp hl
  exact declaredLine_shown (by decide) (h p hp) depth

theorem classOutline_shown (c : Class) (depth : Nat) :
    Listing.Shown (classOutline depth (some c)) := by
  apply Listing.Shown.cons
  · exact shown_entry (opens_append (by decide) _)
  · intro l hl
    obtain ⟨f, -, rfl⟩ := List.mem_map.mp hl
    exact shown_entry (opens_typedLabel (opens_append (by decide) _) _)

theorem opens_declarationWord (readOnly : Bool) (rest : Text) :
    Line.opens ("VarDecl: " ++ Tree.declarationWord readOnly ++ rest) = true :=
  opens_append (opens_append (by decide) _) rest

mutual

/-- Every line in the outline of a statement without issues is for a node that is there. -/
theorem Stmt.outline_shown (s : Stmt) {place : Text} (h : s.issues place = []) (depth : Nat) :
    Listing.Shown (s.outline depth) := by
  cases s with
  | missing | missingCall => cases h
  | declare v init =>
    rw [Stmt.issues, List.append_eq_nil_iff, Issue.when_eq_nil, Bool.not_eq_false'] at h
    apply Listing.Shown.cons
    · exact declaredLine_shown (opens_declarationWord _ _) h.1 depth
    · exact init.outline_shown h.2 (depth + 1)
  | function f params body =>
    simp only [Stmt.issues] at h
    split at h
    · rw [List.append_eq_nil_iff, paramIssues_eq_nil_iff] at h
      obtain ⟨⟨-, hparams⟩, hbody⟩ := h
      apply Listing.Shown.cons
      · exact shown_entry (opens_typedLabel (opens_append (by decide) _) _)
      · exact .append (paramsOutline_shown hparams _) (Stmt.outlineAll_shown body hbody _)
    · cases h
  | cls c methods =>
    cases c with
    | none => cases h
    | some c =>
      rw [Stmt.issues, List.append_eq_nil_iff] at h
      exact .append (classOutline_shown c depth) (MethodBody.outlineAll_shown methods h.2 _)
  | assign target source =>
    rw [Stmt.issues, List.append_eq_nil_iff] at h
    apply Listing.Shown.cons
    · exact shown_entry (by decide)
    · exact .append (target.outline_shown h.1 _) (source.outline_shown h.2 _)
  | bump op target =>
    apply Listing.Shown.cons
    · cases op with
      | increment => exact shown_entry (by decide)
      | decrement => exact shown_entry (by decide)
    · exact target.outline_shown h (depth + 1)
  | branch test consequent alternate =>
    rw [Stmt.issues, List.append_eq_nil_iff, List.append_eq_nil_iff] at h
    obtain ⟨⟨htest, hconsequent⟩, halternate⟩ := h
    apply Listing.Shown.cons
    · exact shown_entry (by decide)
    · apply Listing.Shown.append (test.outline_shown htest _)
      apply Listing.Shown.cons (shown_entry (by decide))
      apply Listing.Shown.append (Stmt.outlineAll_shown consequent hconsequent _)
      exact .cons (shown_entry (by decide)) (Stmt.outlineAll_shown alternate halternate _)
  | shortBranch test consequent =>
    rw [Stmt.issues, List.append_eq_nil_iff] at h
    apply Listing.Shown.cons
    · exact shown_entry (by decide)
    · apply Listing.Shown.append (test.outline_shown h.1 _)
      exact .cons (shown_entry (by decide)) (Stmt.outlineAll_shown consequent h.2 _)
  | loop test body =>
    rw [Stmt.issues, List.append_eq_nil_iff] at h
    apply Listing.Shown.cons
    · exact shown_entry (by decide)
    · exact .append (test.outline_shown h.1 _) (Stmt.outlineAll_shown body h.2 _)
  | forEach v collection body =>
    rw [Stmt.issues, List.append_eq_nil_iff, List.append_eq_nil_iff, Issue.when_eq_nil,
      Bool.not_eq_false'] at h
    obtain ⟨⟨hv, hcollection⟩, hbody⟩ := h
    apply Listing.Shown.cons
    · exact declaredLine_shown (by decide) hv depth
    · exact .append (collection.outline_shown hcollection _) (Stmt.outlineAll_shown body hbody _)
  | leave => exact .singleton (shown_entry (by decide))
  | ret value =>
    have hreturn : (Line.entry depth "ReturnStmt").Shown := shown_entry (by decide)
    rcases Stmt.issues_ret.mp h with rfl | hvalue
    · exact .singleton hreturn
    · have hlines := value.outline_shown hvalue (depth + 1)
      cases value with
      | missing => exact .singleton hreturn
      | _ => exact .cons hreturn hlines
  | print value =>
    apply Listing.Shown.cons
    · exact shown_entry (by decide)
    · exact value.outline_shown h (depth + 1)
  | call callee args type =>
    apply Listing.Shown.cons
    · exact shown_entry (by decide)
    · exact (Expr.call callee args type).outline_shown h (depth + 1)

theorem MethodBody.outline_shown (m : MethodBody) {place cls : Text} (h : m.issues place cls = [])
    (depth : Nat) : Listing.Shown (m.outline depth) := by
  obtain ⟨m, params, body⟩ := m
  simp only [MethodBody.issues] at h
  split at h
  · rw [List.append_eq_nil_iff, paramIssues_eq_nil_iff] at h
    obtain ⟨⟨-, hparams⟩, hbody⟩ := h
    apply Listing.Shown.cons
    · exact shown_entry (opens_typedLabel (opens_append (by decide) _) _)
    · exact .append (paramsOutline_shown hparams _) (Stmt.outlineAll_shown body hbody _)
  · cases h

theorem Stmt.outlineAll_shown (body : List Stmt) {place : Text} {n : Nat}
    (h : Stmt.issuesOfAll place n body = []) (depth : Nat) :
    Listing.Shown (Stmt.outlineAll depth body) := by
  cases body with
  | nil => exact .nil
  | cons s rest =>
    rw [Stmt.issuesOfAll, List.append_eq_nil_iff] at h
    exact .append (Stmt.outline_shown s h.1 depth) (Stmt.outlineAll_shown rest h.2 depth)

theorem MethodBody.outlineAll_shown (bodies : List MethodBody) {place cls : Text}
    (h : MethodBody.issuesOfAll place cls bodies = []) (depth : Nat) :
    Listing.Shown (MethodBody.outlineAll depth bodies) := by
  cases bodies with
  | nil => exact .nil
  | cons m rest =>
    rw [MethodBody.issuesOfAll, List.append_eq_nil_iff] at h
    exact .append (MethodBody.outline_shown m h.1 depth) (MethodBody.outlineAll_shown rest h.2 depth)

end

/-- Every line in the outline of a program without issues is for a node that is there. -/
theorem Program.outline_shown {program : Program} (h : program.issues = []) :
    Listing.Shown program.outline := by
  apply Listing.Shown.cons
  · exact shown_entry (by decide)
  · exact Stmt.outlineAll_shown program h 1

section Parts

mutual

/-- The statements in a statement without issues have no issues where they stand. -/
theorem Stmt.parts_issues (s : Stmt) {place : Text} (h : s.issues place = []) :
    ∀ t ∈ s.parts, ∃ place', t.issues place' = [] := by
  have hself : ∃ place', s.issues place' = [] := ⟨place, h⟩
  cases s with
  | function f params body =>
    refine List.forall_mem_cons.mpr ⟨hself, ?_⟩
    simp only [Stmt.issues] at h
    split at h
    · exact Stmt.partsOfAll_issues body (List.append_eq_nil_iff.mp h).2
    · cases h
  | cls c methods =>
    refine List.forall_mem_cons.mpr ⟨hself, ?_⟩
    cases c with
    | none => cases h
    | some c => exact MethodBody.partsOfAll_issues methods (List.append_eq_nil_iff.mp h).2
  | branch test consequent alternate =>
    rw [Stmt.issues, List.append_eq_nil_iff, List.append_eq_nil_iff] at h
    obtain ⟨⟨-, hconsequent⟩, halternate⟩ := h
    refine List.forall_mem_cons.mpr ⟨hself, List.forall_mem_append.mpr ⟨?_, ?_⟩⟩
    · exact Stmt.partsOfAll_issues consequent hconsequent
    · exact Stmt.partsOfAll_issues alternate halternate
  | shortBranch test body =>
    refine List.forall_mem_cons.mpr ⟨hself, ?_⟩
    exact Stmt.partsOfAll_issues body (List.append_eq_nil_iff.mp h).2
  | loop test body =>
    refine List.forall_mem_cons.mpr ⟨hself, ?_⟩
    exact Stmt.partsOfAll_issues body (List.append_eq_nil_iff.mp h).2
  | forEach v collection body =>
    refine List.forall_mem_cons.mpr ⟨hself, ?_⟩
    exact Stmt.partsOfAll_issues body (List.append_eq_nil_iff.mp h).2
  | missing | declare | assign | bump | leave | ret | print | call | missingCall =>
    exact List.forall_mem_singleton.mpr hself

theorem MethodBody.parts_issues (m : MethodBody) {place cls : Text} (h : m.issues place cls = []) :
    ∀ t ∈ m.parts, ∃ place', t.issues place' = [] := by
  obtain ⟨m, params, body⟩ := m
  simp only [MethodBody.issues] at h
  split at h
  · exact Stmt.partsOfAll_issues body (List.append_eq_nil_iff.mp h).2
  · cases h

theorem Stmt.partsOfAll_issues (body : List Stmt) {place : Text} {n : Nat}
    (h : Stmt.issuesOfAll place n body = []) :
    ∀ t ∈ Stmt.partsOfAll body, ∃ place', t.issues place' = [] := by
  cases body with
  | nil => exact nofun
  | cons s rest =>
    rw [Stmt.issuesOfAll, List.append_eq_nil_iff] at h
    exact List.forall_mem_append.mpr ⟨Stmt.parts_issues s h.1, Stmt.partsOfAll_issues rest h.2⟩

theorem MethodBody.partsOfAll_issues (bodies : List MethodBody) {place cls : Text}
    (h : MethodBody.issuesOfAll place cls bodies = []) :
    ∀ t ∈ MethodBody.partsOfAll bodies, ∃ place', t.issues place' = [] := by
  cases bodies with
  | nil => exact nofun
  | cons m rest =>
    rw [MethodBody.issuesOfAll, List.append_eq_nil_iff] at h
    exact List.forall_mem_append.mpr
      ⟨MethodBody.parts_issues m h.1, MethodBody.partsOfAll_issues rest h.2⟩

end

/-- In a program without issues every call statement has its call. -/
theorem Program.parts_ne_missingCall {program : Program} (h : program.issues = []) :
    ∀ s ∈ Stmt.partsOfAll program, s ≠ .missingCall := by
  rintro s hs rfl
  obtain ⟨place, hnone⟩ := Stmt.partsOfAll_issues program h _ hs
  cases hnone

end Parts

end Typed

end PeakLang
