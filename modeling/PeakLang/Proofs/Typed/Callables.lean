import Mathlib.Data.List.Nodup
import PeakLang.Proofs.Typed.Closed
import PeakLang.Proofs.Typed.Placement

namespace PeakLang.Typed

/-- A function or method: what it is to the statements of its body, and its parameters. -/
structure Callable where
  enclosure : Enclosure
  params : List (Option Variable)
  body : List Stmt

/-- A method of a class as a function or method. -/
def MethodBody.callable (c : Option Class) : MethodBody → Callable
  | .mk m params body => ⟨.method c m, params, body⟩

/-- The functions and methods that a statement declares. -/
def Stmt.callables : Stmt → List Callable
  | .function f params body => [⟨.function f, params, body⟩]
  | .cls c methods => methods.map (MethodBody.callable c)
  | _ => []

/-- What a function or method binds. -/
def Callable.bound (g : Callable) : List Binder := Binder.ofVars g.params ++ Stmt.boundInAll g.body

/-- What a statement binds itself: its name, its variable, and parameters. -/
def Stmt.ownBound : Stmt → List Binder
  | .forEach v _ _ => Binder.ofVars [v]
  | s => s.binders ++ s.callables.flatMap fun g => Binder.ofVars g.params

/-- The expressions that a statement reads: a variable that is assigned is not read. -/
def Stmt.readExprs : Stmt → List Expr
  | .assign (.var _) source => [source]
  | s => s.exprs

/-- Whether a statement itself reads a variable. -/
def Stmt.Reads (s : Stmt) (v : Variable) : Prop := ∃ e ∈ s.readExprs, .var (some v) ∈ e.parts

theorem Stmt.readExprs_subset (s : Stmt) : s.readExprs ⊆ s.exprs := by
  unfold readExprs
  split
  · exact List.subset_cons_self _ _
  · exact List.Subset.refl _

theorem Stmt.mem_readExprs {s : Stmt} {e : Expr} (h : e ∈ s.exprs) :
    e ∈ s.readExprs ∨ ∃ v, e = .var v := by
  unfold readExprs
  split
  · exact (List.mem_cons.mp h).symm.imp_right fun heq => ⟨_, heq⟩
  · exact .inl h

section Sites

/-- The statements right inside one, each with what lies around it. -/
def Site.inside : Site → List Site
  | ⟨around, .branch _ consequent alternate⟩ => (consequent ++ alternate).map (⟨around, ·⟩)
  | ⟨around, .shortBranch _ consequent⟩ => consequent.map (⟨around, ·⟩)
  | ⟨around, .loop _ body⟩ | ⟨around, .forEach _ _ body⟩ => body.map (⟨.loop :: around, ·⟩)
  | ⟨around, s⟩ => s.callables.flatMap fun g => g.body.map (⟨g.enclosure :: around, ·⟩)

/-- A statement and the statements in it, at any depth, each with what lies around it. -/
def Site.parts (p : Site) : List Site := p.stmt.sites p.around

theorem Stmt.sitesInAll_eq (around : List Enclosure) (ss : List Stmt) :
    Stmt.sitesInAll around ss = (ss.map (⟨around, ·⟩)).flatMap Site.parts := by
  induction ss with
  | nil => rfl
  | cons s rest ih => rw [Stmt.sitesInAll, ih, List.map_cons, List.flatMap_cons, Site.parts]

theorem Site.parts_eq (p : Site) : p.parts = p :: p.inside.flatMap Site.parts := by
  obtain ⟨around, s⟩ := p
  cases s with
  | function f params body =>
    refine congrArg (_ :: ·) ((Stmt.sitesInAll_eq _ body).trans ?_)
    rw [← List.append_nil (body.map _)]
    rfl
  | cls c methods =>
    refine congrArg (_ :: ·) ?_
    induction methods with
    | nil => rfl
    | cons m rest ih =>
      obtain ⟨m, params, body⟩ := m
      rw [MethodBody.sitesInAll, ih, MethodBody.sites, Stmt.sitesInAll_eq, ← List.flatMap_append]
      rfl
  | branch test consequent alternate =>
    rw [Site.inside, List.map_append, List.flatMap_append, ← Stmt.sitesInAll_eq, ← Stmt.sitesInAll_eq]
    rfl
  | shortBranch test body | loop test body | forEach v collection body =>
    rw [Site.inside, ← Stmt.sitesInAll_eq]
    rfl
  | _ => rfl

end Sites

mutual

/-- What a statement binds at any depth is what the statements in it bind themselves. -/
theorem Stmt.mem_bound {b : Binder} (s : Stmt) :
    b ∈ s.bound ↔ b ∈ s.parts.flatMap Stmt.ownBound := by
  cases s with
  | function f params body =>
    simp only [Stmt.bound, Stmt.parts, Stmt.ownBound, Stmt.binders, Stmt.callables, List.flatMap_cons,
      List.flatMap_nil, List.append_nil, List.mem_append, Stmt.mem_boundInAll body, or_assoc]
  | cls c methods =>
    simp only [Stmt.bound, Stmt.parts, Stmt.ownBound, Stmt.binders, Stmt.callables, List.flatMap_cons,
      List.mem_append, MethodBody.mem_boundInAll c methods, or_assoc]
  | branch test consequent alternate =>
    rw [Stmt.bound, List.mem_append, Stmt.mem_boundInAll consequent, Stmt.mem_boundInAll alternate,
      ← List.mem_append, ← List.flatMap_append]
    rfl
  | shortBranch test body | loop test body => exact Stmt.mem_boundInAll body
  | forEach v collection body =>
    simp only [Stmt.bound, Stmt.parts, Stmt.ownBound, List.flatMap_cons, List.mem_append,
      Stmt.mem_boundInAll body]
  | _ => simp [Stmt.bound, Stmt.parts, Stmt.ownBound, Stmt.binders, Stmt.callables]

theorem Stmt.mem_boundInAll {b : Binder} (ss : List Stmt) :
    b ∈ Stmt.boundInAll ss ↔ b ∈ (Stmt.partsOfAll ss).flatMap Stmt.ownBound := by
  cases ss with
  | nil => rfl
  | cons s rest =>
    rw [Stmt.boundInAll, Stmt.partsOfAll, List.flatMap_append, List.mem_append, List.mem_append,
      Stmt.mem_bound s, Stmt.mem_boundInAll rest]

theorem MethodBody.mem_boundInAll {b : Binder} (c : Option Class) (ms : List MethodBody) :
    b ∈ MethodBody.boundInAll ms ↔
      b ∈ (ms.map (MethodBody.callable c)).flatMap (fun g => Binder.ofVars g.params) ∨
        b ∈ (MethodBody.partsOfAll ms).flatMap Stmt.ownBound := by
  cases ms with
  | nil => simp [MethodBody.boundInAll, MethodBody.partsOfAll]
  | cons m rest =>
    obtain ⟨m, params, body⟩ := m
    simp only [MethodBody.boundInAll, MethodBody.bound, MethodBody.partsOfAll, MethodBody.parts,
      List.map_cons, MethodBody.callable, List.flatMap_cons, List.flatMap_append, List.mem_append,
      Stmt.mem_boundInAll body, MethodBody.mem_boundInAll c rest]
    tauto

end

/-- How a variable is read in some statements that bind and declare something: if it is bound in one of
the functions and methods, and only once, then it is read in that one alone. -/
structure Encloses (v : Variable) (env bound : List Binder) (callables : List Callable)
    (parts : List Stmt) : Prop where
  binds : ∀ g ∈ callables, .var v ∈ g.bound → .var v ∈ bound
  reads : Entity.var v ∉ Entity.builtins → ∀ x ∈ parts, x.Reads v → .var v ∈ bound ∨ .var v ∈ env
  inside : Entity.var v ∉ Entity.builtins → .var v ∉ env → bound.count (.var v) ≤ 1 →
    ∀ g ∈ callables, .var v ∈ g.bound → ∀ x ∈ parts, x.Reads v → x ∈ Stmt.partsOfAll g.body

namespace Encloses

variable {v : Variable} {env own bound bound' : List Binder} {callables callables' : List Callable}
  {parts parts' : List Stmt}

theorem nil : Encloses v env bound [] [] where
  binds _ hg := absurd hg List.not_mem_nil
  reads _ _ hx := absurd hx List.not_mem_nil
  inside _ _ _ _ hg := absurd hg List.not_mem_nil

theorem subset (h : Encloses v env bound callables parts) (hsub : callables' ⊆ callables) :
    Encloses v env bound callables' parts where
  binds g hg := h.binds g (hsub hg)
  reads := h.reads
  inside hv henv hcount g hg := h.inside hv henv hcount g (hsub hg)

/-- A closed statement reads what is in scope. -/
theorem cons {s : Stmt} (hs : s.Closed env) (h : Encloses v env bound callables parts) :
    Encloses v env bound callables (s :: parts) := by
  have hread (hv : Entity.var v ∉ Entity.builtins) (hreads : s.Reads v) : .var v ∈ env := by
    obtain ⟨e, he, hpart⟩ := hreads
    obtain ⟨w, heq, hin⟩ := (hs.exprs e (s.readExprs_subset he)).parts e _ hpart
    cases heq
    exact hin.resolve_left hv
  constructor
  · exact h.binds
  · exact fun hv => List.forall_mem_cons.mpr ⟨fun hs => .inr (hread hv hs), h.reads hv⟩
  · intro hv henv hcount g hg hbinds
    exact List.forall_mem_cons.mpr
      ⟨fun hs => absurd (hread hv hs) henv, h.inside hv henv hcount g hg hbinds⟩

/-- What is bound around statements is none of what they bind. -/
theorem under (h : Encloses v (own ++ env) bound callables parts) :
    Encloses v env (own ++ bound) callables parts := by
  constructor
  · exact fun g hg hbinds => List.mem_append_right _ (h.binds g hg hbinds)
  · intro hv x hx hreads
    have hread := h.reads hv x hx hreads
    rw [List.mem_append] at hread ⊢
    tauto
  · intro hv henv hcount g hg hbinds
    rw [List.count_append] at hcount
    have hpos := List.count_pos_iff.mpr (h.binds g hg hbinds)
    have hown : .var v ∉ own := List.count_eq_zero.mp (by omega)
    exact h.inside hv (List.not_mem_append hown henv) (by omega) g hg hbinds

theorem callable (g : Callable)
    (h : Encloses v (Binder.ofVars g.params ++ env) (Stmt.boundInAll g.body) callables
      (Stmt.partsOfAll g.body)) :
    Encloses v env g.bound (g :: callables) (Stmt.partsOfAll g.body) where
  binds := List.forall_mem_cons.mpr ⟨fun hbinds => hbinds, h.under.binds⟩
  reads := h.under.reads
  inside hv henv hcount :=
    List.forall_mem_cons.mpr ⟨fun _ _ hx _ => hx, h.under.inside hv henv hcount⟩

/-- Statements after others: what is bound for them is bound in no function or method before them. -/
theorem append (h : Encloses v env bound callables parts)
    (h' : Encloses v (own ++ env) bound' callables' parts') (hown : own ⊆ bound)
    (hfree : .var v ∈ own → callables = []) :
    Encloses v env (bound ++ bound') (callables ++ callables') (parts ++ parts') := by
  constructor
  · refine List.forall_mem_append.mpr ⟨fun g hg hbinds => ?_, fun g hg hbinds => ?_⟩
    · exact List.mem_append_left _ (h.binds g hg hbinds)
    · exact List.mem_append_right _ (h'.binds g hg hbinds)
  · refine fun hv => List.forall_mem_append.mpr ⟨fun x hx hreads => ?_, fun x hx hreads => ?_⟩
    · exact (h.reads hv x hx hreads).imp_left (List.mem_append_left _)
    · rcases h'.reads hv x hx hreads with hbound | henv
      · exact .inl (List.mem_append_right _ hbound)
      · exact (List.mem_append.mp henv).imp_left fun h => List.mem_append_left _ (hown h)
  · intro hv henv hcount
    rw [List.count_append] at hcount
    -- Each of the two parts reads the variable only if it binds it, and not both do.
    refine List.forall_mem_append.mpr ⟨fun g hg hbinds => ?_, fun g hg hbinds => ?_⟩
    · have hpos := List.count_pos_iff.mpr (h.binds g hg hbinds)
      have hother : .var v ∉ bound' := List.count_eq_zero.mp (by omega)
      have hown : .var v ∉ own := fun hmem => by
        rw [hfree hmem] at hg
        cases hg
      refine List.forall_mem_append.mpr ⟨h.inside hv henv (by omega) g hg hbinds, ?_⟩
      intro x hx hreads
      exact ((h'.reads hv x hx hreads).elim hother (List.not_mem_append hown henv)).elim
    · have hpos := List.count_pos_iff.mpr (h'.binds g hg hbinds)
      have hother : .var v ∉ bound := List.count_eq_zero.mp (by omega)
      have hown : .var v ∉ own := fun hmem => hother (hown hmem)
      refine List.forall_mem_append.mpr ⟨fun x hx hreads => ?_, ?_⟩
      · exact ((h.reads hv x hx hreads).elim hother henv).elim
      · exact h'.inside hv (List.not_mem_append hown henv) (by omega) g hg hbinds

/-- Statements beside others, which bind nothing for each other. -/
theorem beside (h : Encloses v env bound callables parts)
    (h' : Encloses v env bound' callables' parts') :
    Encloses v env (bound ++ bound') (callables ++ callables') (parts ++ parts') := by
  have hnone : Encloses v ([] ++ env) bound' callables' parts' := h'
  exact h.append hnone (List.nil_subset _) nofun

end Encloses

section Reads

variable {v : Variable}

/-- A statement that binds a variable for those after it declares no function or method. -/
theorem Stmt.callables_of_mem_binders {s : Stmt} (h : .var v ∈ s.binders) :
    s.parts.flatMap Stmt.callables = [] := by
  cases s with
  | declare => rfl
  | function f => cases f <;> simp [Stmt.binders, Binder.ofFunction] at h
  | cls c => cases c <;> simp [Stmt.binders, Binder.ofClass] at h
  | _ => cases h

mutual

theorem Stmt.Closed.encloses (s : Stmt) {env : List Binder} (h : s.Closed env) :
    Encloses v env s.bound (s.parts.flatMap Stmt.callables) s.parts := by
  cases s with
  | function f params body =>
    have hbody := Encloses.callable ⟨.function f, params, body⟩ (Stmt.ClosedAll.encloses body h)
    exact .cons h hbody.under
  | cls c methods => exact .cons h (MethodBody.ClosedAll.encloses c methods h).under
  | branch test consequent alternate =>
    have hfirst := Stmt.ClosedAll.encloses consequent h.2.1
    have hsecond := Stmt.ClosedAll.encloses alternate h.2.2
    have hall := hfirst.beside hsecond
    rw [← List.flatMap_append] at hall
    exact .cons h hall
  | shortBranch test body => exact .cons h (Stmt.ClosedAll.encloses body h.2)
  | loop test body => exact .cons h (Stmt.ClosedAll.encloses body h.2)
  | forEach v collection body => exact .cons h (Stmt.ClosedAll.encloses body h.2).under
  | _ => exact .cons h .nil

theorem Stmt.ClosedAll.encloses (ss : List Stmt) {env : List Binder}
    (h : Stmt.ClosedAll env ss) :
    Encloses v env (Stmt.boundInAll ss) ((Stmt.partsOfAll ss).flatMap Stmt.callables)
      (Stmt.partsOfAll ss) := by
  cases ss with
  | nil => exact .nil
  | cons s rest =>
    rw [Stmt.partsOfAll, List.flatMap_append]
    exact .append (Stmt.Closed.encloses s h.1) (Stmt.ClosedAll.encloses rest h.2)
      s.binders_subset_bound s.callables_of_mem_binders

theorem MethodBody.ClosedAll.encloses (c : Option Class) (ms : List MethodBody) {env : List Binder}
    (h : MethodBody.ClosedAll env ms) :
    Encloses v env (MethodBody.boundInAll ms)
      (ms.map (MethodBody.callable c) ++ (MethodBody.partsOfAll ms).flatMap Stmt.callables)
      (MethodBody.partsOfAll ms) := by
  cases ms with
  | nil => exact .nil
  | cons m rest =>
    obtain ⟨m, params, body⟩ := m
    have hfirst := Encloses.callable ⟨.method c m, params, body⟩ (Stmt.ClosedAll.encloses body h.1)
    refine (hfirst.beside (MethodBody.ClosedAll.encloses c rest h.2)).subset fun g hg => ?_
    rw [MethodBody.partsOfAll, MethodBody.parts, List.flatMap_append] at hg
    simp only [List.map_cons, MethodBody.callable, List.cons_append, List.mem_cons,
      List.mem_append] at hg ⊢
    tauto

end

/-- What a function or method of a closed program binds is read in it alone. -/
theorem Program.Closed.reads_inside {program : Program} (h : program.Closed) {g : Callable}
    (hg : g ∈ (Stmt.partsOfAll program).flatMap Stmt.callables) (hv : .var v ∈ g.bound) :
    ∀ x ∈ Stmt.partsOfAll program, x.Reads v → x ∈ Stmt.partsOfAll g.body := by
  have hencloses : Encloses v [] _ _ _ := Stmt.ClosedAll.encloses program h.references
  have hbuiltin : Entity.var v ∉ Entity.builtins := by
    intro hmem
    cases (Entity.builtin_of_mem _ hmem).symm.trans (h.own _ (hencloses.binds g hg hv))
  refine hencloses.inside hbuiltin List.not_mem_nil ?_ g hg hv
  exact List.nodup_iff_count_le_one.mp h.unique.of_map _

end Reads

end PeakLang.Typed
