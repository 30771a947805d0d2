import PeakLang.Proofs.Analysis.Typing
import PeakLang.Proofs.Tree.Lint
import PeakLang.Proofs.Typed.Callables
import PeakLang.Proofs.Typed.Placement

namespace PeakLang.Analysis

open Typed (Expr Stmt MethodBody Enclosure Site Callable)

/-- What the current scope says about its loop and its class is true of what lies around it. -/
structure Fits (s : Scopes) (around : List Enclosure) : Prop where
  inLoop : s.inLoop = true → around.head? = some .loop
  cls : ∀ ref, s.cls = some ref →
    ∃ c m, Enclosure.owner? around = some (.method (some c) m) ∧ c.ref = ref

namespace Fits

variable {s s' : State} {around : List Enclosure}

theorem start : Fits State.start.scopes [] where
  inLoop h := by cases h
  cls _ h := by cases h

/-- Declarations say nothing about loops and classes. -/
theorem step {declared : List Class} (hs : s.Sound) (h : Fits s.scopes around)
    (hstep : Step s s' declared) : Fits s'.scopes around := by
  have hbare := hstep.grows.bare_top hs.open_
  obtain ⟨-, -, hloop, -, hcls⟩ := Scope.mk.inj hbare
  constructor
  · rw [Scopes.inLoop, hloop]
    exact h.inLoop
  · rw [Scopes.cls, hcls]
    exact h.cls

theorem enter (h : Fits s.scopes around) : Fits (s.enter .nothing).scopes around := by
  constructor
  · rw [State.enter, Scopes.inLoop, Scopes.top_push]
    exact h.inLoop
  · rw [State.enter, Scopes.cls, Scopes.top_push]
    exact h.cls

theorem enter_loop (h : Fits s.scopes around) : Fits (s.enter .ofLoop).scopes (.loop :: around) := by
  constructor
  · intro _
    rfl
  · rw [State.enter, Scopes.cls, Scopes.top_push]
    exact h.cls

/-- The body of a function lies in no loop and in no class. -/
theorem enter_function (s : State) (f : Option Function) (sig : Option Signature) :
    Fits (s.enter (.ofFunction sig)).scopes (.function f :: around) := by
  constructor
  · rw [State.enter, Scopes.inLoop, Scopes.top_push]
    intro h
    cases h
  · rw [State.enter, Scopes.cls, Scopes.top_push]
    intro ref h
    cases h

theorem enter_method (s : State) (c : Class) (m : Option Method) (sig : Option Signature) :
    Fits (s.enter (.ofMethod (some c.ref) sig)).scopes (.method (some c) m :: around) := by
  constructor
  · rw [State.enter, Scopes.inLoop, Scopes.top_push]
    intro h
    cases h
  · rw [State.enter, Scopes.cls, Scopes.top_push]
    intro ref h
    cases h
    exact ⟨c, m, rfl, rfl⟩

end Fits

section Expressions

variable {s : State} {names names' : Tree.Names}

/-- Where a reference comes from: a variable from a name that is read, the object of a method from the
class of the current scope. -/
def Comes (s : State) (names : Tree.Names) : Expr → Prop
  | .var v => ∃ w, v = some w ∧ w.name ∈ names
  | .self c => ∃ ref, c = some ref ∧ s.scopes.cls = some ref
  | _ => True

theorem Comes.mono {x : Expr} (h : Comes s names x) (hsub : names ⊆ names') : Comes s names' x := by
  cases x with
  | var v =>
    obtain ⟨w, hw, hname⟩ := h
    exact ⟨w, hw, hsub hname⟩
  | _ => exact h

theorem comes_append {xs ys : List Expr} (hx : ∀ x ∈ xs, Comes s names x)
    (hy : ∀ y ∈ ys, Comes s names' y) : ∀ x ∈ xs ++ ys, Comes s (names ++ names') x :=
  List.forall_mem_append.mpr ⟨fun x h => (hx x h).mono (List.subset_append_left _ _),
    fun y h => (hy y h).mono (List.subset_append_right _ _)⟩

mutual

/-- What an expression refers to comes from the names that it reads, and from the class of the current
scope. -/
theorem Finds.comes (hs : s.Sound) {t : Tree.Expr} {e : Expr} (h : Finds s t e) :
    ∀ x ∈ e.parts, Comes s t.reads x := by
  cases h with
  | int | float | string | bool | function | emptyArray => exact List.forall_mem_singleton.mpr trivial
  | var hfind =>
    refine List.forall_mem_singleton.mpr ⟨_, rfl, List.mem_singleton.mpr ?_⟩
    exact hs.described.find? hfind
  | shot hcls => exact List.forall_mem_singleton.mpr ⟨_, rfl, hcls⟩
  | unary ho | field ho | method ho => exact List.forall_mem_cons.mpr ⟨trivial, ho.comes hs⟩
  | binary hl hr | index hl _ hr =>
    exact List.forall_mem_cons.mpr ⟨trivial, comes_append (hl.comes hs) (hr.comes hs)⟩
  | conditional ht _ hc ha =>
    refine List.forall_mem_cons.mpr ⟨trivial, ?_⟩
    rw [← List.append_assoc]
    exact comes_append (comes_append (ht.comes hs) (hc.comes hs)) (ha.comes hs)
  | call hf _ has =>
    exact List.forall_mem_cons.mpr ⟨trivial, comes_append (hf.comes hs) (has.comes hs)⟩
  | new _ _ has =>
    refine List.forall_mem_cons.mpr ⟨trivial, List.forall_mem_cons.mpr ⟨trivial, ?_⟩⟩
    exact fun x hx => (has.comes hs x hx).mono (List.subset_append_right _ _)
  | array hf hfs =>
    exact List.forall_mem_cons.mpr ⟨trivial, comes_append (hf.comes hs) (hfs.comes hs)⟩

theorem FindsAll.comes (hs : s.Sound) {ts : List Tree.Expr} {es : List Expr} (h : FindsAll s ts es) :
    ∀ x ∈ Expr.partsOfAll es, Comes s (Tree.Expr.readsOfAll ts) x := by
  cases h with
  | nil => exact List.forall_mem_nil _
  | cons he hes => exact comes_append (he.comes hs) (hes.comes hs)

end

end Expressions

section Statements

variable {s s' : State} {around : List Enclosure} {r : Stmt}

/-- What a statement refers to where it reads comes from the names that it reads itself. -/
theorem Passes.comes {t : Tree.Stmt} (hs : s.Sound) (h : Passes s t r s') :
    ∀ e ∈ r.readExprs, ∀ x ∈ e.parts, Comes s t.ownReads x := by
  have hcomes {source : Tree.Expr} {e : Expr} (he : Finds s source e) (hmem : source ∈ t.readExprs) :
      ∀ x ∈ e.parts, Comes s t.ownReads x := by
    rw [Tree.Stmt.ownReads_eq]
    exact fun x hx => (he.comes hs x hx).mono fun n hn => List.mem_flatMap_of_mem hmem hn
  cases h with
  | function | cls | leave => exact List.forall_mem_nil _
  | declare hvalue | print hvalue | call hvalue | forEach hvalue | branch hvalue | shortBranch hvalue
  | loop hvalue | bump hvalue =>
    exact List.forall_mem_singleton.mpr (hcomes hvalue (List.mem_singleton_self _))
  | retNothing => exact List.forall_mem_singleton.mpr (List.forall_mem_singleton.mpr trivial)
  | ret _ _ hvalue =>
    exact List.forall_mem_singleton.mpr (hcomes hvalue (List.mem_singleton_self _))
  | @assign _ place value pos e source htarget _ hsource =>
    cases place with
    | name n =>
      have hsource := hcomes hsource (List.mem_singleton_self _)
      -- The name that is assigned is not read: it stands for a variable, or for a function.
      cases htarget with
      | var => exact List.forall_mem_singleton.mpr hsource
      | function =>
        refine List.forall_mem_cons.mpr ⟨List.forall_mem_singleton.mpr trivial, ?_⟩
        exact List.forall_mem_singleton.mpr hsource
    | _ =>
      intro x hx
      rcases List.mem_cons.mp (Stmt.readExprs_subset _ hx) with rfl | hx
      · exact hcomes htarget List.mem_cons_self
      · obtain rfl := List.mem_singleton.mp hx
        exact hcomes hsource (List.mem_cons_of_mem _ (List.mem_singleton_self _))

theorem exists_mem_zip {α β : Type} {R : α → β → Prop} {xs : List α} {ys : List β}
    (h : List.Forall₂ R xs ys) {x : α} (hx : x ∈ xs) : ∃ y, (x, y) ∈ xs.zip ys ∧ R x y := by
  induction h with
  | nil => cases hx
  | @cons _ y _ _ hxy _ ih =>
    rcases List.mem_cons.mp hx with rfl | hx
    · exact ⟨y, List.mem_cons_self, hxy⟩
    · obtain ⟨y, hy, hxy⟩ := ih hx
      exact ⟨y, List.mem_cons_of_mem _ hy, hxy⟩

/-- A statement of a tree becomes one of a program at a site: it was let through in a sound state, in a
scope that fits the site. -/
def Origin (t : Tree.Stmt) (p : Site) : Prop :=
  ∃ s s', State.Sound s ∧ Fits s.scopes p.around ∧ Passes s t p.stmt s'

theorem PassesAll.origins {ts : List Tree.Stmt} {rs : List Stmt} (hs : s.Sound)
    (hfits : Fits s.scopes around) (h : PassesAll s ts rs s') :
    List.Forall₂ Origin ts (rs.map (⟨around, ·⟩)) := by
  induction ts generalizing s rs with
  | nil =>
    cases h
    exact .nil
  | cons t rest ih =>
    cases h with
    | cons hr hrs =>
      obtain ⟨hstep, -⟩ := hr.checked hs
      exact .cons ⟨s, _, hs, hfits, hr⟩ (ih hstep.sound (hfits.step hs hstep) hrs)

theorem PassesOther.origins {o : Tree.Otherwise} {rs : Option (List Stmt)} (hs : s.Sound)
    (hfits : Fits s.scopes around) (h : PassesOther s o rs s') :
    List.Forall₂ Origin o.statements ((rs.getD []).map (⟨around, ·⟩)) := by
  cases h with
  | nothing => exact .nil
  | block hbody => exact hbody.origins (Step.enter_sound hs _) hfits.enter
  | chain hnext => exact .cons ⟨s, _, hs, hfits, hnext⟩ .nil

/-- A function or method becomes one of a program, in a scope that fits what lies around it. -/
def Became (around : List Enclosure) (f : Tree.Func) (g : Callable) : Prop :=
  ∃ s s' sig o, State.Sound s ∧ Signature.known sig = true ∧
    sig.params.length = f.params.length ∧ Fits (s.enter o).scopes (g.enclosure :: around) ∧
      PassesBody s f.params sig o f.body g.params g.body s'

theorem Became.body {f : Tree.Func} {g : Callable} (h : Became around f g) :
    List.Forall₂ Origin f.body (g.body.map (⟨g.enclosure :: around, ·⟩)) := by
  obtain ⟨s, s', sig, o, hs, hknown, -, hfits, hpasses⟩ := h
  generalize g.params = vs at hpasses
  generalize g.body = r at hpasses ⊢
  cases hpasses with
  | mk hparams hpasses =>
    have henter := Step.enter_sound hs o
    obtain ⟨hstep, -⟩ := declareParams_step henter (Signature.known_iff.mp hknown).1 hparams
    exact hpasses.origins hstep.sound (hfits.step henter hstep)

theorem PassesMethods.became {c : Class} {funcs : List Tree.Func} {methods : List (Option Method)}
    {sigs : List Signature} {rs : List MethodBody} (hs : s.Sound)
    (hknown : ∀ sig ∈ sigs, sig.known = true)
    (hlengths : List.Forall₂ (fun m sig => sig.params.length = (Tree.Func.params m).length) funcs sigs)
    (h : PassesMethods c.ref s funcs methods sigs rs s') :
    List.Forall₂ (Became around) funcs (rs.map (MethodBody.callable (some c))) := by
  induction hlengths generalizing s methods rs with
  | nil =>
    cases h
    exact .nil
  | @cons func sig funcs sigs hlength _ ih =>
    cases h with
    | @cons _ _ _ _ _ _ _ _ _ m _ _ _ _ _ _ _ _ hbody hrest =>
      obtain ⟨hfirst, hknown⟩ := List.forall_mem_cons.mp hknown
      obtain ⟨hstep, -, -⟩ := hbody.checked hs hfirst hlength rfl
      refine .cons ⟨s, _, sig, _, hs, hfirst, hlength, ?_, hbody⟩ (ih hstep.sound hknown hrest)
      exact Fits.enter_method s c m (some sig)

theorem forall₂_flatMap {α β γ δ : Type} {R : α → β → Prop} {Q : γ → δ → Prop} {xs : List α}
    {ys : List β} {f : α → List γ} {g : β → List δ} (h : List.Forall₂ R xs ys)
    (hfg : ∀ x ∈ xs, ∀ y, R x y → List.Forall₂ Q (f x) (g y)) :
    List.Forall₂ Q (xs.flatMap f) (ys.flatMap g) := by
  induction h with
  | nil => exact .nil
  | cons hxy _ ih =>
    exact List.rel_append (hfg _ List.mem_cons_self _ hxy)
      (ih fun x hx => hfg x (List.mem_cons_of_mem _ hx))

variable {t : Tree.Stmt} {p : Site}

/-- The functions and methods that a statement declares are those of the tree, in the same order. -/
theorem Origin.callables (h : Origin t p) :
    List.Forall₂ (fun c g => Became p.around c.2 g) t.callables p.stmt.callables := by
  obtain ⟨s, s', hs, -, hpasses⟩ := h
  generalize p.stmt = r at hpasses
  cases hpasses with
  | function hf hbody =>
    obtain ⟨hstep, -, hknown, hlength⟩ := declareFunction_step hs hf
    refine .cons ⟨_, _, _, _, hstep.sound, hknown, hlength, ?_, hbody⟩ .nil
    exact Fits.enter_function _ _ _
  | cls hc hbodies =>
    obtain ⟨hstep, -, hknown, hlengths⟩ := declareClass_step hs hc
    rw [Tree.Stmt.callables, List.forall₂_map_left_iff]
    exact hbodies.became hstep.sound hknown hlengths
  | _ => exact .nil

/-- The statements right inside one that is let through are those of the tree, in the same order. -/
theorem Origin.inside (h : Origin t p) : List.Forall₂ Origin (t.blocks true) p.inside := by
  have hbodies := forall₂_flatMap h.callables fun _ _ _ hbecame => hbecame.body
  obtain ⟨s, s', hs, hfits, hpasses⟩ := h
  obtain ⟨around, r⟩ := p
  cases hpasses with
  | function =>
    rw [Tree.Stmt.callables, List.flatMap_singleton] at hbodies
    exact hbodies
  | cls =>
    rw [Tree.Stmt.callables, List.flatMap_map] at hbodies
    exact hbodies
  | branch _ _ hbody hother =>
    have henter := Step.enter_sound hs .nothing
    obtain ⟨hstep, -⟩ := (hbody.checked henter).leave hs
    rw [Site.inside, List.map_append]
    exact List.rel_append (hbody.origins henter hfits.enter)
      (hother.origins hstep.sound (hfits.step hs hstep))
  | shortBranch _ _ hbody hother =>
    have henter := Step.enter_sound hs .nothing
    obtain ⟨hstep, -⟩ := (hbody.checked henter).leave hs
    rw [Site.inside, ← List.append_nil (List.map _ _)]
    exact List.rel_append (hbody.origins henter hfits.enter)
      (hother.origins hstep.sound (hfits.step hs hstep))
  | loop _ _ hbody => exact hbody.origins (Step.enter_sound hs _) hfits.enter_loop
  | forEach he hbase hv hbody =>
    have henter := Step.enter_sound hs .ofLoop
    obtain ⟨hstep, -⟩ := declareVariable_step henter (he.base_known hs hbase) hv
    exact hbody.origins hstep.sound (hfits.enter_loop.step henter hstep)
  | _ => exact .nil

/-- The statements that are let through are those of the tree, in the same order. -/
theorem Origin.parts {t : Tree.Stmt} {p : Site} (h : Origin t p) :
    List.Forall₂ Origin (t.parts true) p.parts := by
  rw [Tree.Stmt.parts_eq, Site.parts_eq]
  exact .cons h (forall₂_flatMap h.inside fun u hu q hq => hq.parts)
termination_by sizeOf t
decreasing_by exact Tree.Stmt.sizeOf_of_mem_blocks hu

theorem origins_parts {ts : List Tree.Stmt} {rs : List Stmt}
    (h : List.Forall₂ Origin ts (rs.map (⟨around, ·⟩))) :
    List.Forall₂ Origin (Tree.Stmt.partsOfAll true ts) (Stmt.sitesInAll around rs) := by
  rw [Stmt.sitesInAll_eq]
  exact List.rel_flatMap h fun _ _ horigin => horigin.parts

theorem analyze_origins {t : Tree.Program} {program : Typed.Program} (h : analyze t = .ok program) :
    List.Forall₂ Origin (Tree.Stmt.partsOfAll true t) program.sites := by
  obtain ⟨s, hpasses⟩ := analyze_passes h
  exact origins_parts (hpasses.origins State.start_sound .start)

end Statements

end PeakLang.Analysis
