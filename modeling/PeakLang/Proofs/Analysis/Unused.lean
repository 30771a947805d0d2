import PeakLang.Proofs.Analysis.Closed
import PeakLang.Proofs.Analysis.Named

namespace PeakLang

open Typed (Stmt Site Callable)

/-- The functions and methods of a program, with the names that messages call them. -/
def Tree.Program.callables (program : Tree.Program) : List (Text × Tree.Func) :=
  (Tree.Stmt.partsOfAll true program).flatMap Tree.Stmt.callables

namespace Typed.Program

/-- The functions and methods of a program. -/
def callables (program : Typed.Program) : List Callable :=
  (Stmt.partsOfAll program).flatMap Stmt.callables

/-- Whether a variable is referred to in a program, other than as the whole target of an assignment. -/
def Reads (program : Typed.Program) (v : Variable) : Prop := ∃ s ∈ Stmt.partsOfAll program, s.Reads v

end Typed.Program

namespace Tree

theorem Stmt.blocks_subset (s : Stmt) : s.blocks false ⊆ s.blocks true := by
  cases s with
  | function | cls => exact List.nil_subset _
  | branch b =>
    cases b
    exact List.Subset.refl _
  | _ => exact List.Subset.refl _

theorem Stmt.parts_subset (s : Stmt) : s.parts false ⊆ s.parts true := by
  intro t ht
  have hsub : t.parts true ⊆ s.parts true := by
    refine Stmt.forall_parts (Q := fun t => t.parts true ⊆ s.parts true) (fun t hsub u hu => ?_)
      (List.Subset.refl _) t ht
    refine List.Subset.trans (fun x hx => ?_) hsub
    rw [Stmt.parts_eq true t]
    exact List.mem_cons_of_mem _ (List.mem_flatMap.mpr ⟨u, t.blocks_subset hu, hx⟩)
  refine hsub ?_
  rw [Stmt.parts_eq]
  exact List.mem_cons_self

theorem mem_remarksOn {α : Type} {asks : α → Bool} {remark : α → Remark × Pos} {declared : List α}
    {r : Remark × Pos} : r ∈ remarksOn asks remark declared ↔
      ∃ d ∈ declared, asks d = true ∧ remark d = r := by
  simp only [remarksOn, List.mem_map, List.mem_filter, and_assoc]

variable {program : Program} {name shown : Text} {pos : Pos}

theorem Program.of_unusedParam (h : (.unusedParam name shown, pos) ∈ program.remarks) :
    ∃ f, (shown, f) ∈ program.callables ∧ name ∉ namesRead f.body ∧
      ∃ p ∈ f.params, p.name = name ∧ p.pos = pos := by
  have hmem := program.remarks_perm.mem_iff.mp h
  simp only [warranted, warrantedByCallables, List.mem_append, mem_remarksOn, List.mem_flatMap,
    Prod.mk.injEq, reduceCtorEq, false_and, and_false, exists_false, or_false, false_or] at hmem
  obtain ⟨⟨_, f⟩, hf, p, hp, hunread, heq, hpos⟩ := hmem
  cases heq
  exact ⟨f, List.mem_flatMap.mpr hf, by simpa using hunread, p, hp, rfl, hpos⟩

theorem Program.of_unusedVariable (h : (.unusedVariable name, pos) ∈ program.remarks) :
    ∃ c ∈ program.callables, name ∉ namesRead c.2.body ∧ (name, pos) ∈ c.2.locals := by
  have hmem := program.remarks_perm.mem_iff.mp h
  simp only [warranted, warrantedByCallables, List.mem_append, mem_remarksOn, List.mem_flatMap,
    Prod.mk.injEq, reduceCtorEq, false_and, and_false, exists_false, or_false, false_or] at hmem
  obtain ⟨c, hc, ⟨_, _⟩, hlocal, hunread, heq, rfl⟩ := hmem
  cases heq
  exact ⟨c, List.mem_flatMap.mpr hc, by simpa using hunread, hlocal⟩

/-- A variable of a function's body is declared in it. -/
theorem Func.mem_of_mem_locals {f : Func} (h : (name, pos) ∈ f.locals) :
    ∃ readOnly value, .declare name readOnly value pos ∈ Stmt.partsOfAll true f.body := by
  obtain ⟨t, ht, hlocal⟩ := List.mem_flatMap.mp h
  obtain ⟨u, hu, ht⟩ := List.mem_flatMap.mp ht
  cases t with
  | declare _ readOnly value =>
    cases List.mem_singleton.mp hlocal
    exact ⟨readOnly, value, List.mem_flatMap.mpr ⟨u, hu, u.parts_subset ht⟩⟩
  | _ => cases hlocal

end Tree

namespace Analysis

variable {tree : Tree.Program} {program : Typed.Program} {around : List Typed.Enclosure}
  {f : Tree.Func} {g : Callable}

theorem forall₂_stmt {ts : List Tree.Stmt} {rs : List Stmt}
    (h : List.Forall₂ Origin ts (rs.map (⟨around, ·⟩))) :
    List.Forall₂ (fun t r => ∃ p : Site, p.stmt = r ∧ Origin t p) (Tree.Stmt.partsOfAll true ts)
      (Stmt.partsOfAll rs) := by
  rw [← Stmt.map_stmt_sitesInAll rs around, List.forall₂_map_right_iff]
  exact (origins_parts h).imp fun _ p horigin => ⟨p, rfl, horigin⟩

/-- What a function or method binds is not read anywhere if it does not read the name. -/
theorem Became.not_reads (hbecame : Became around f g) (hanalyze : analyze tree = .ok program)
    (hg : g ∈ program.callables) {v : Variable} (hv : .var v ∈ g.bound)
    (hname : v.name ∉ Tree.namesRead f.body) : ¬ program.Reads v := by
  rintro ⟨r, hr, hreads⟩
  have hinside := (program_closed hanalyze).reads_inside hg hv r hr hreads
  obtain ⟨t, ht, p, rfl, s, s', hs, -, hpasses⟩ := exists_mem_zip (forall₂_stmt hbecame.body).flip hinside
  obtain ⟨e, he, hpart⟩ := hreads
  obtain ⟨w, hw, hread⟩ := hpasses.comes hs e he _ hpart
  cases hw
  exact hname (List.mem_flatMap.mpr ⟨t, (List.of_mem_zip ht).2, hread⟩)

theorem callables_became (h : analyze tree = .ok program) :
    List.Forall₂ (fun c g => ∃ around, Became around c.2 g) tree.callables program.callables := by
  rw [Typed.Program.callables, ← Stmt.map_stmt_sitesInAll program [], List.flatMap_map]
  exact forall₂_flatMap (analyze_origins h) fun _ _ _ horigin =>
    horigin.callables.imp fun _ _ hbecame => ⟨_, hbecame⟩

/-- Nothing that is said to be never used is used. The functions and methods of an analyzed program are
those of the tree in the same order, with the same parameters and statements. If a parameter or a
variable of one is remarked on, then the one that analysis makes of it is referred to nowhere in the
program, other than as the whole target of an assignment. -/
theorem unused_not_read (h : analyze tree = .ok program) :
    (List.Forall₂ (fun c g => c.2.params.length = g.params.length ∧
        (Tree.Stmt.partsOfAll true c.2.body).length = (Stmt.partsOfAll g.body).length)
      tree.callables program.callables) ∧
    (∀ name shown pos, (.unusedParam name shown, pos) ∈ tree.remarks →
      ∃ f g, ((shown, f), g) ∈ tree.callables.zip program.callables ∧
        ∃ p v, (p, some v) ∈ f.params.zip g.params ∧ p.name = name ∧ p.pos = pos ∧
          v.name = name ∧ ¬ program.Reads v) ∧
    ∀ name pos, (.unusedVariable name, pos) ∈ tree.remarks →
      ∃ c g, (c, g) ∈ tree.callables.zip program.callables ∧ (name, pos) ∈ c.2.locals ∧
        ∃ readOnly value v init, (.declare name readOnly value pos, .declare (some v) init) ∈
          (Tree.Stmt.partsOfAll true c.2.body).zip (Stmt.partsOfAll g.body) ∧
            v.name = name ∧ ¬ program.Reads v := by
  have hpairs := callables_became h
  refine ⟨hpairs.imp fun c g hpair => ?_, fun name shown pos hremark => ?_, fun name pos hremark => ?_⟩
  · obtain ⟨around, hbecame⟩ := hpair
    exact ⟨hbecame.params.length_eq, (forall₂_stmt hbecame.body).length_eq⟩
  · obtain ⟨f, hf, hunread, p, hp, rfl, hpos⟩ := tree.of_unusedParam hremark
    obtain ⟨g, hg, around, hbecame⟩ := exists_mem_zip hpairs hf
    obtain ⟨_, hpv, v, rfl, hname⟩ := exists_mem_zip hbecame.params hp
    refine ⟨f, g, hg, p, v, hpv, rfl, hpos, hname, ?_⟩
    have hbound : .var v ∈ Typed.Binder.ofVars g.params :=
      List.mem_filterMap.mpr ⟨some v, (List.of_mem_zip hpv).2, rfl⟩
    exact hbecame.not_reads h (List.of_mem_zip hg).2 (List.mem_append_left _ hbound) (hname ▸ hunread)
  · obtain ⟨c, hc, hunread, hlocal⟩ := tree.of_unusedVariable hremark
    obtain ⟨g, hg, around, hbecame⟩ := exists_mem_zip hpairs hc
    obtain ⟨readOnly, value, hdeclared⟩ := Tree.Func.mem_of_mem_locals hlocal
    obtain ⟨_, hmem, ⟨around', r⟩, rfl, s, s', hs, -, hpasses⟩ :=
      exists_mem_zip (forall₂_stmt hbecame.body) hdeclared
    cases hpasses with
    | @declare _ _ _ _ _ init v _ hinit hv =>
      have hname := declareVariable_name hv
      refine ⟨c, g, hg, hlocal, readOnly, value, v, init, hmem, hname, ?_⟩
      have hbound : .var v ∈ Stmt.boundInAll g.body := (Stmt.mem_boundInAll g.body).mpr
        (List.mem_flatMap.mpr ⟨_, (List.of_mem_zip hmem).2, List.mem_cons_self⟩)
      exact hbecame.not_reads h (List.of_mem_zip hg).2 (List.mem_append_right _ hbound)
        (hname ▸ hunread)

/-- A method that never reads a parameter, although a function inside it has one of that name, and that
assigns a variable without reading it. -/
private def sweetening : Tree.Program :=
  let p := Pos.start
  [.cls "Pot" []
    [.mk "brew" [⟨"cups", .named "pump" p, p⟩, ⟨"sugar", .named "pump" p, p⟩] none
      [.declare "foam" false (.int "0" p) p, .assign (.name "foam" p) (.name "cups" p) p,
        .function (.mk "stir" [⟨"sugar", .named "pump" p, p⟩] none [.print (.name "cups" p) p] p p)]
      p p] p]

theorem unused_not_read_sweetening : ∃ program, analyze sweetening = .ok program ∧
    (.unusedParam "sugar" "Pot.brew", Pos.start) ∈ sweetening.remarks ∧
    (.unusedVariable "foam", Pos.start) ∈ sweetening.remarks ∧
    (∃ v : Variable, v.name = "sugar" ∧ ¬ program.Reads v) ∧
    ∃ v : Variable, v.name = "foam" ∧ ¬ program.Reads v := by
  have hok : (analyze sweetening).isOk = true := by decide +kernel
  have hparam : (.unusedParam "sugar" "Pot.brew", Pos.start) ∈ sweetening.remarks := by decide +kernel
  have hvariable : (.unusedVariable "foam", Pos.start) ∈ sweetening.remarks := by decide +kernel
  cases hanalyze : analyze sweetening with
  | error fault =>
    rw [hanalyze] at hok
    cases hok
  | ok program =>
    obtain ⟨-, hparams, hvariables⟩ := unused_not_read hanalyze
    obtain ⟨f, g, -, q, v, -, -, -, hsugar⟩ := hparams _ _ _ hparam
    obtain ⟨c, g', -, -, readOnly, value, w, init, -, hfoam⟩ := hvariables _ _ hvariable
    exact ⟨program, rfl, hparam, hvariable, ⟨v, hsugar⟩, w, hfoam⟩

end Analysis

end PeakLang
