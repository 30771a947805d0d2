import PeakLang.Proofs.Analysis.Annotation
import PeakLang.Proofs.Analysis.Origin

namespace PeakLang

open Typed (Binder Stmt Site)

/-- Whether all names that are bound are words of a source. -/
def Typed.Binder.Named : Binder → Prop
  | var v => Lexeme.IsName v.name
  | function f => Lexeme.IsName f.name
  | cls c => Lexeme.IsName c.ref.name ∧ (∀ f ∈ c.fields, Lexeme.IsName f.name) ∧
      ∀ m ∈ c.methods, ∀ n ∈ m, Lexeme.IsName n.name

theorem Tree.Stmt.Legible.callables {t : Tree.Stmt} (h : t.Legible) :
    ∀ c ∈ t.callables, c.2.Legible := by
  cases t with
  | function f => exact List.forall_mem_singleton.mpr h
  | cls name fields methods => exact List.forall_mem_map.mpr (Tree.Func.LegibleAll.of_mem h.2.2)
  | _ => exact nofun

namespace Analysis

section Declarations

variable {s s' : State}

theorem declareVariable_name {name : Text} {type : Ty} {readOnly : Bool} {pos : Pos} {v : Variable}
    (h : Yields (declareVariable name type readOnly pos) s v s') : v.name = name := by
  rw [(yields_declareVariable h).1]

theorem declareFunction_name {name : Text} {params : List Tree.Param} {result : Option TypeExpr}
    {pos : Pos} {f : Function} {sig : Signature}
    (h : Yields (declareFunction name params result pos) s (f, sig) s') : f.name = name := by
  rw [(yields_declareFunction h).1]

theorem declareParams_names {params : List Tree.Param} {types : List Ty} {vs : List Variable}
    (hlength : types.length = params.length) (h : Yields (declareParams params types) s vs s') :
    List.Forall₂ (fun p v => ∃ w, v = some w ∧ Variable.name w = Tree.Param.name p) params
      (vs.map some) := by
  induction params generalizing s s' types vs with
  | nil =>
    obtain ⟨rfl, -⟩ := yields_pure.mp h
    exact .nil
  | cons p params ih =>
    obtain ⟨type, types, rfl⟩ := List.exists_cons_of_length_eq_add_one hlength
    simp only [declareParams, yields_bind, yields_pure] at h
    obtain ⟨v, t, hv, vs, _, hvs, rfl, -⟩ := h
    exact .cons ⟨v, rfl, declareVariable_name hv⟩ (ih (Nat.succ.inj hlength) hvs)

theorem ofMembers_names (ref : ClassRef) (fields : List (Text × Ty))
    (methods : List (Text × Option Signature)) :
    (Class.ofMembers ref fields methods).fields.map Field.name = fields.map Prod.fst ∧
      (Class.ofMembers ref fields methods).methods.map (Option.map Method.name) =
        (methods.map Prod.fst).map some := by
  constructor
  · apply List.ext_getElem <;> simp [Class.ofMembers]
  · apply List.ext_getElem <;> simp [Class.ofMembers]

theorem declareClass_named {name : Text} {fields : List Tree.Field} {methods : List Tree.Func}
    {pos : Pos} {c : Class} {signatures : List Signature} (hname : Lexeme.IsName name)
    (hfields : ∀ f ∈ fields, f.Legible) (hmethods : Tree.Func.LegibleAll methods)
    (h : Yields (declareClass name fields methods pos) s (c, signatures) s') :
    (Binder.cls c).Named := by
  obtain ⟨fs, ms, hfs, hms, rfl, -, -⟩ := yields_declareClass h
  obtain ⟨hfieldNames, hmethodNames⟩ := ofMembers_names ⟨s.nextId, name⟩ fs (ms.map fun x => (x.1, some x.2))
  rw [((givesTypes_true _).fieldsOf hfs).2] at hfieldNames
  have hsources : (ms.map fun x => (x.1, some x.2)).map Prod.fst = methods.map Tree.Func.name := by
    rw [List.map_map]
    exact ((givesTypes_true _).methodsOf hms).2.1
  refine ⟨hname, fun f hf => ?_, fun m hm n hn => ?_⟩
  · have hmem := List.mem_map_of_mem (f := Field.name) hf
    rw [hfieldNames] at hmem
    obtain ⟨g, hg, heq⟩ := List.mem_map.mp hmem
    rw [← heq]
    exact (hfields g hg).1
  · obtain rfl := hn
    have hmem := List.mem_map_of_mem (f := Option.map Method.name) hm
    rw [hmethodNames, hsources] at hmem
    obtain ⟨_, hname, heq⟩ := List.mem_map.mp hmem
    obtain ⟨g, hg, rfl⟩ := List.mem_map.mp hname
    rw [← Option.some.inj heq]
    exact (hmethods.of_mem g hg).name

end Declarations

section Statements

variable {t : Tree.Stmt} {p : Site}

/-- The parameters of a function or method are those of the tree. -/
theorem Became.params {around : List Typed.Enclosure} {f : Tree.Func} {g : Typed.Callable}
    (h : Became around f g) :
    List.Forall₂ (fun p v => ∃ w, v = some w ∧ Variable.name w = Tree.Param.name p) f.params
      g.params := by
  obtain ⟨s, s', sig, o, -, -, hlength, -, hpasses⟩ := h
  generalize g.params = vs at hpasses ⊢
  generalize g.body = r at hpasses
  cases hpasses with
  | mk hparams => exact declareParams_names hlength hparams

theorem Origin.params_named (h : Origin t p) (ht : t.Legible) :
    ∀ b ∈ p.stmt.callables.flatMap fun g => Binder.ofVars g.params, b.Named := by
  intro b hb
  obtain ⟨g, hg, hb⟩ := List.mem_flatMap.mp hb
  obtain ⟨c, hc, hbecame⟩ := exists_mem_zip h.callables.flip hg
  obtain ⟨v, hv, heq⟩ := List.mem_filterMap.mp hb
  obtain ⟨q, hq, w, rfl, hname⟩ := exists_mem_zip (Became.params hbecame).flip hv
  cases heq
  rw [Binder.Named, hname]
  exact ((ht.callables c (List.of_mem_zip hc).2).params q (List.of_mem_zip hq).2).1

/-- What a statement of a source binds itself has names of the source. -/
theorem Origin.named (h : Origin t p) (ht : t.Legible) : ∀ b ∈ p.stmt.ownBound, b.Named := by
  have hparams := h.params_named ht
  obtain ⟨s, s', hs, -, hpasses⟩ := h
  generalize p.stmt = r at hparams hpasses
  cases hpasses with
  | declare _ hv | forEach _ _ hv =>
    refine List.forall_mem_singleton.mpr ?_
    rw [Binder.Named, declareVariable_name hv]
    exact ht.1
  | function hf =>
    refine List.forall_mem_cons.mpr ⟨?_, hparams⟩
    rw [Binder.Named, declareFunction_name hf]
    exact ht.1
  | cls hc => exact List.forall_mem_cons.mpr ⟨declareClass_named ht.1 ht.2.1 ht.2.2 hc, hparams⟩
  | _ => exact List.forall_mem_nil _

end Statements

/-- What a program binds has names of its source. -/
theorem analyze_named {source : Text} {tree : Tree.Program} {program : Typed.Program}
    (hparse : Tree.Parser.parse source = ⟨tree, []⟩) (h : analyze tree = .ok program) :
    ∀ b ∈ Stmt.boundInAll program, b.Named := by
  intro b hb
  rw [Stmt.mem_boundInAll, ← Stmt.map_stmt_sitesInAll program [], List.flatMap_map] at hb
  obtain ⟨p, hp, hb⟩ := List.mem_flatMap.mp hb
  obtain ⟨t, ht, horigin⟩ := exists_mem_zip (analyze_origins h).flip hp
  obtain ⟨u, hu, ht⟩ := List.mem_flatMap.mp (List.of_mem_zip ht).2
  have hlegible := (Tree.Parser.parse_legible hparse).of_mem u hu
  exact Origin.named horigin (Tree.Stmt.forall_parts (fun _ h => h.blocks) hlegible t ht) b hb

end Analysis

end PeakLang
