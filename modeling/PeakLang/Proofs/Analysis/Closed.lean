import PeakLang.Proofs.Analysis.Typing
import PeakLang.Proofs.Scope.Chain
import PeakLang.Proofs.Typed.Closed

namespace PeakLang

open Typed (Expr Stmt MethodBody Binder)

def ClassRef.In (env : List Binder) (ref : ClassRef) : Prop := ∃ c, .cls c ∈ env ∧ c.ref = ref

theorem ClassRef.In.mono {env env' : List Binder} {ref : ClassRef} (h : ref.In env)
    (hsub : env ⊆ env') : ref.In env' := by
  obtain ⟨c, hc, heq⟩ := h
  exact ⟨c, hsub hc, heq⟩

namespace Ty

mutual

/-- The classes that a type names. -/
def refs : Ty → List ClassRef
  | untyped | prim _ => []
  | cls c => [c]
  | array base | optional base => base.refs
  | function params result => refsOfAll params ++ result.refs

def refsOfAll : List Ty → List ClassRef
  | [] => []
  | t :: rest => t.refs ++ refsOfAll rest

end

/-- Whether every class that a type names is bound. -/
def In (env : List Binder) (t : Ty) : Prop := ∀ ref ∈ t.refs, ref.In env

variable {env env' : List Binder}

theorem In.mono {t : Ty} (h : t.In env) (hsub : env ⊆ env') : t.In env' :=
  fun ref href => (h ref href).mono hsub

theorem in_of_refs_eq_nil {t : Ty} (h : t.refs = []) : t.In env := by
  intro ref href
  rw [h] at href
  cases href

theorem in_cls {ref : ClassRef} : (Ty.cls ref).In env ↔ ref.In env :=
  List.forall_mem_singleton

theorem in_array {base : Ty} : (Ty.array base).In env ↔ base.In env := Iff.rfl

theorem in_function {params : List Ty} {result : Ty} :
    (Ty.function params result).In env ↔ (∀ t ∈ params, t.In env) ∧ result.In env := by
  rw [In, refs, List.forall_mem_append]
  refine and_congr_left fun _ => ?_
  induction params with
  | nil => simp [refsOfAll]
  | cons t rest ih => rw [refsOfAll, List.forall_mem_append, ih, List.forall_mem_cons, In]

end Ty

/-- Whether every class that the members of a class name is bound. -/
def Class.In (env : List Binder) (c : Class) : Prop :=
  (∀ f ∈ c.fields, f.type.In env) ∧ ∀ m ∈ c.methods, ∀ n ∈ m, n.type.In env

theorem Class.In.mono {env env' : List Binder} {c : Class} (h : c.In env) (hsub : env ⊆ env') :
    c.In env' :=
  ⟨fun f hf => (h.1 f hf).mono hsub, fun m hm n hn => (h.2 m hm n hn).mono hsub⟩

namespace Entity

variable {env env' : List Binder}

/-- Whether every class that an entity names is bound, if the entity is a type. -/
def TypeIn (env : List Binder) : Entity → Prop
  | type _ t => t.In env
  | _ => True

/-- Whether an entity is built in or bound, and every class that its type names is bound. -/
def InScope (env : List Binder) : Entity → Prop
  | var v => (.var v ∈ builtins ∨ .var v ∈ env) ∧ v.type.In env
  | function f => (.function f ∈ builtins ∨ .function f ∈ env) ∧ f.type.In env
  | type _ t => t.In env

theorem InScope.typeIn {e : Entity} (h : e.InScope env) : e.TypeIn env := by
  cases e with
  | var | function => trivial
  | type => exact h

theorem InScope.mono {e : Entity} (h : e.InScope env) (hsub : env ⊆ env') : e.InScope env' := by
  cases e with
  | var => exact ⟨h.1.imp_right fun hv => hsub hv, h.2.mono hsub⟩
  | function => exact ⟨h.1.imp_right fun hf => hsub hf, h.2.mono hsub⟩
  | type => exact Ty.In.mono h hsub

/-- The classes that the type of an entity names. -/
def refs : Entity → List ClassRef
  | var v => v.type.refs
  | function f => f.type.refs
  | type _ t => t.refs

theorem inScope_builtin : ∀ e ∈ builtins, e.InScope env := by
  have hrefs : ∀ e ∈ builtins, e.refs = [] := by decide
  intro e he
  cases e with
  | var v => exact ⟨.inl he, Ty.in_of_refs_eq_nil (hrefs _ he)⟩
  | function f => exact ⟨.inl he, Ty.in_of_refs_eq_nil (hrefs _ he)⟩
  | type n t => exact Ty.in_of_refs_eq_nil (hrefs _ he)

end Entity

namespace Analysis

/-- The binders in scope at a point of a program: every name in force stands for one of them or for
something built in. The class that the point lies in is one of them, and so are all classes that types
in force name. -/
structure Covers (s : State) (env : List Binder) : Prop where
  positive : 0 < s.scopes.current
  linked : s.scopes.Linked
  entities : s.scopes.Visible (Entity.InScope env)
  self : ∀ ref, s.scopes.cls = some ref → ref.In env
  classes : ∀ c, .cls c ∈ env → s.class? c.ref = some c ∧ c.In env
  fresh : ∀ c ∈ s.classes, c.ref.id < s.nextId

theorem covers_start : Covers .start [] where
  positive := by decide
  linked := Scopes.Linked.root.push _
  entities := by
    refine Scopes.Visible.push .root ?_ .nothing
    intro scope hscope d hd
    have hroot : scope = .root := List.mem_singleton.mp hscope
    rw [hroot] at hd
    obtain ⟨e, he, rfl⟩ := List.mem_map.mp hd
    exact Entity.inScope_builtin e he
  self ref h := by cases h
  classes c h := by cases h
  fresh c h := by cases h

namespace Covers

variable {s : State} {env env' : List Binder}

/-- Only which binders there are counts, not their order. -/
theorem congr (h : Covers s env) (hsub : env ⊆ env') (hsub' : env' ⊆ env) : Covers s env' where
  positive := h.positive
  linked := h.linked
  entities := h.entities.imp fun _ he => he.mono hsub
  self ref href := (h.self ref href).mono hsub
  classes c hc := ⟨(h.classes c (hsub' hc)).1, (h.classes c (hsub' hc)).2.mono hsub⟩
  fresh := h.fresh

theorem types (h : Covers s env) : s.scopes.Visible (Entity.TypeIn env) :=
  h.entities.imp fun _ he => he.typeIn

theorem enter (h : Covers s env) (o : Scope.Overrides) (ho : ∀ ref, o.cls = some ref → ref.In env) :
    Covers (s.enter o) env where
  positive := Nat.lt_trans h.positive h.linked.current
  linked := h.linked.push o
  entities := h.entities.push h.linked o
  self ref href := by
    have hcls : (s.scopes.push o).cls = o.cls.or (if o.resetClass then none else s.scopes.cls) := by
      change (s.scopes.push o).top.cls = _
      rw [Scopes.top_push]
      rfl
    rw [show (s.enter o).scopes.cls = _ from hcls, Option.or_eq_some_iff] at href
    rcases href with href | ⟨-, href⟩
    · exact ho ref href
    · split at href
      · cases href
      · exact h.self ref href
  classes := h.classes
  fresh := h.fresh

/-- Declaring a name brings its binder into scope, if the classes in scope are known. -/
theorem bind (h : Covers s env) {b : Binder} {e : Entity} (he : e.InScope (b :: env)) (name : Text)
    {classes : List Class} {nextId : Nat}
    (hclasses : ∀ c, .cls c ∈ b :: env →
      classes.find? (fun k => k.ref == c.ref) = some c ∧ c.In (b :: env))
    (hfresh : ∀ c ∈ classes, c.ref.id < nextId) :
    Covers ⟨s.scopes.bind name e, classes, nextId⟩ (b :: env) where
  positive := h.positive
  linked := h.linked.bind name e
  entities := (h.entities.imp fun _ he => he.mono (List.subset_cons_self _ _)).bind he
  self ref href := by
    have hcls : (s.scopes.bind name e).cls = s.scopes.cls := by
      change (s.scopes.bind name e).top.bare.cls = s.scopes.top.bare.cls
      rw [(Scopes.Grows.bind s.scopes name e).bare_top h.linked.current]
    have hself : (s.scopes.bind name e).cls = some ref := href
    rw [hcls] at hself
    exact (h.self ref hself).mono (List.subset_cons_self _ _)
  classes := hclasses
  fresh := hfresh

/-- Declaring a variable or a function does not touch the classes. -/
theorem bindValue (h : Covers s env) {b : Binder} {e : Entity} (hvalue : b.class? = none)
    (he : e.InScope (b :: env)) (name : Text) :
    Covers ⟨s.scopes.bind name e, s.classes, s.nextId + 1⟩ (b :: env) := by
  refine h.bind he name (fun c hc => ?_) fun c hc => Nat.lt_succ_of_lt (h.fresh c hc)
  rcases List.mem_cons.mp hc with rfl | hc
  · cases hvalue
  · exact ⟨(h.classes c hc).1, (h.classes c hc).2.mono (List.subset_cons_self _ _)⟩

end Covers

section Types

variable {s : Scopes} {env : List Binder}

theorem givesTypes_in (hs : s.Visible (Entity.TypeIn env)) : GivesTypes s (Ty.In env) where
  find? h := hs.find? h
  none := Ty.in_of_refs_eq_nil rfl
  array := Ty.in_array.mpr
  optional h := h
  function hparams hresult := Ty.in_function.mpr ⟨hparams, hresult⟩

theorem ofMembers_in {ref : ClassRef} {fields : List (Text × Ty)}
    {signatures : List (Text × Signature)} (hfields : ∀ f ∈ fields, f.2.In env)
    (hsigs : ∀ sig ∈ signatures, sig.2.type.In env) :
    (Class.ofMembers ref fields (signatures.map fun (n, sig) => (n, some sig))).In env := by
  constructor
  · intro f hf
    obtain ⟨i, hi, rfl⟩ := List.mem_mapIdx.mp hf
    exact hfields _ (List.getElem_mem hi)
  · intro m hm n hn
    obtain ⟨i, hi, rfl⟩ := List.mem_mapIdx.mp hm
    obtain ⟨sig, hsig, heq⟩ := List.mem_map.mp (List.getElem_mem hi)
    rw [← heq] at hn
    obtain rfl := Option.mem_some_iff.mp hn
    exact hsigs sig hsig

end Types

section Expressions

variable {s : State} {env : List Binder}

theorem Covers.mem_of_class? (hs : Covers s env) {c : Class} (href : (Ty.cls c.ref).In env)
    (hclass : s.class? c.ref = some c) : .cls c ∈ env ∧ c.In env := by
  obtain ⟨k, hk, heq⟩ := Ty.in_cls.mp href
  obtain ⟨hfound, hmembers⟩ := hs.classes k hk
  rw [heq, hclass] at hfound
  cases hfound
  exact ⟨hk, hmembers⟩

mutual

/-- What is found for an expression is closed, and every class that its type names is in scope. -/
theorem Finds.closed (hs : Covers s env) {t : Tree.Expr} {e : Expr} (h : Finds s t e) :
    e.Closed env ∧ e.type.In env := by
  cases h with
  | int | float | string | bool => exact ⟨trivial, Ty.in_of_refs_eq_nil rfl⟩
  | var hfind | function hfind =>
    obtain ⟨hbound, htype⟩ := hs.entities.find? hfind
    exact ⟨⟨_, rfl, hbound⟩, htype⟩
  | shot hcls =>
    obtain ⟨c, hc, rfl⟩ := hs.self _ hcls
    exact ⟨⟨c, hc, rfl⟩, Ty.in_cls.mpr ⟨c, hc, rfl⟩⟩
  | unary ho hrule =>
    obtain ⟨hoperand, htype⟩ := ho.closed hs
    refine ⟨hoperand, ?_⟩
    rcases hrule.result_eq with rfl | rfl
    · exact Ty.in_of_refs_eq_nil rfl
    · exact htype
  | binary hl hr hrule =>
    obtain ⟨hleft, htype⟩ := hl.closed hs
    refine ⟨⟨hleft, (hr.closed hs).1⟩, ?_⟩
    rcases hrule.result_eq with rfl | rfl
    · exact Ty.in_of_refs_eq_nil rfl
    · exact htype
  | conditional ht hbool hc ha hsame =>
    obtain ⟨hconsequent, htype⟩ := hc.closed hs
    exact ⟨⟨(ht.closed hs).1, hconsequent, (ha.closed hs).1⟩, htype⟩
  | call hf htype has hfit =>
    obtain ⟨hcallee, hin⟩ := hf.closed hs
    rw [htype, Ty.in_function] at hin
    exact ⟨⟨hcallee, has.closed hs⟩, hin.2⟩
  | new hfind hclass has hfit =>
    have href := hs.entities.find? hfind
    obtain ⟨hc, -⟩ := hs.mem_of_class? href hclass
    exact ⟨⟨⟨_, hc, rfl, rfl⟩, has.closed hs⟩, href⟩
  | index ho hbase hi hint =>
    obtain ⟨hobject, htype⟩ := ho.closed hs
    rw [hbase, Ty.in_array] at htype
    exact ⟨⟨hobject, (hi.closed hs).1⟩, htype⟩
  | field ho htype hclass hfield =>
    obtain ⟨hobject, hin⟩ := ho.closed hs
    obtain ⟨hc, hmembers⟩ := hs.mem_of_class? (htype ▸ hin) hclass
    have hf := List.mem_of_find?_eq_some hfield
    exact ⟨⟨hobject, htype ▸ .field (Binder.mem_classes.mpr hc) hf⟩, hmembers.1 _ hf⟩
  | method ho htype hclass hmethod =>
    obtain ⟨hobject, hin⟩ := ho.closed hs
    obtain ⟨hc, hmembers⟩ := hs.mem_of_class? (htype ▸ hin) hclass
    have hm := Class.mem_of_method? hmethod
    exact ⟨⟨hobject, htype ▸ .method (Binder.mem_classes.mpr hc) hm⟩, hmembers.2 _ hm _ rfl⟩
  | array hf hfs hsame =>
    obtain ⟨hfirst, htype⟩ := hf.closed hs
    exact ⟨⟨hfirst, hfs.closed hs⟩, Ty.in_array.mpr htype⟩
  | emptyArray htype => exact ⟨trivial, (givesTypes_in hs.types).resolve htype⟩

theorem FindsAll.closed (hs : Covers s env) {ts : List Tree.Expr} {es : List Expr}
    (h : FindsAll s ts es) : Expr.ClosedAll env es := by
  cases h with
  | nil => trivial
  | cons he hes => exact ⟨(he.closed hs).1, hes.closed hs⟩

end

end Expressions

/-- Binders of distinct identities between two bounds, none of them built in. -/
structure Fresh (lower upper : Nat) (bound : List Binder) : Prop where
  le : lower ≤ upper
  range : ∀ b ∈ bound, lower ≤ b.id ∧ b.id < upper
  unique : (bound.map Binder.id).Nodup
  own : ∀ b ∈ bound, b.builtin = false

namespace Fresh

variable {lower middle upper : Nat} {bound bound' : List Binder}

theorem nil (lower : Nat) : Fresh lower lower [] :=
  ⟨Nat.le_refl _, fun _ h => absurd h List.not_mem_nil, List.nodup_nil,
    fun _ h => absurd h List.not_mem_nil⟩

/-- An identity that was free is taken by one binder. -/
theorem singleton {b : Binder} {n : Nat} (hid : b.id = n) (hown : b.builtin = false) :
    Fresh n (n + 1) [b] := by
  subst hid
  exact ⟨Nat.le_succ _, List.forall_mem_singleton.mpr ⟨Nat.le_refl _, Nat.lt_succ_self _⟩,
    by simp, List.forall_mem_singleton.mpr hown⟩

theorem append (h : Fresh lower middle bound) (h' : Fresh middle upper bound') :
    Fresh lower upper (bound ++ bound') where
  le := Nat.le_trans h.le h'.le
  range := by
    refine List.forall_mem_append.mpr ⟨fun b hb => ?_, fun b hb => ?_⟩
    · exact ⟨(h.range b hb).1, Nat.lt_of_lt_of_le (h.range b hb).2 h'.le⟩
    · exact ⟨Nat.le_trans h.le (h'.range b hb).1, (h'.range b hb).2⟩
  unique := by
    rw [List.map_append, List.nodup_append]
    refine ⟨h.unique, h'.unique, ?_⟩
    intro i hi j hj heq
    obtain ⟨b, hb, rfl⟩ := List.mem_map.mp hi
    obtain ⟨b', hb', rfl⟩ := List.mem_map.mp hj
    have hlt := (h.range b hb).2
    have hge := (h'.range b' hb').1
    omega
  own := List.forall_mem_append.mpr ⟨h.own, h'.own⟩

end Fresh

/-- What an analysis that finds no fault does: `env` is in scope after it, it binds `bound` under
identities that were free, and it leaves every scope that it opens. -/
structure Declares (s s' : State) (env bound : List Binder) : Prop where
  covers : Covers s' env
  keeps : s.scopes.Keeps s'.scopes
  fresh : Fresh s.nextId s'.nextId bound

namespace Declares

variable {s s' s'' : State} {env env' env'' bound bound' : List Binder}

theorem refl (hs : Covers s env) : Declares s s env [] := ⟨hs, .refl _, .nil _⟩

theorem trans (h : Declares s s' env bound) (h' : Declares s' s'' env' bound') :
    Declares s s'' env' (bound ++ bound') :=
  ⟨h'.covers, h.keeps.trans h'.keeps, h.fresh.append h'.fresh⟩

/-- Once a scope is left, what was in scope before it was opened is in scope again. -/
theorem leave {o : Scope.Overrides} (hs : Covers s env) (h : Declares (s.enter o) s' env' bound)
    (hsub : env ⊆ env') : Declares s s'.leave env bound := by
  have hkeeps : (s.scopes.push o).Keeps s'.scopes := h.keeps
  have hpop : s'.scopes.pop?.getD s'.scopes = { s'.scopes with current := s.scopes.current } := by
    rw [Scopes.Grows.pop? hkeeps.grows hs.positive]
    rfl
  rw [State.leave, hpop]
  refine ⟨⟨hs.positive, hs.linked.within hkeeps h.covers.linked, ?_, ?_, ?_, h.covers.fresh⟩,
    hkeeps.within, h.fresh⟩
  · intro scope hscope
    rw [hkeeps.chain_within hs.linked] at hscope
    exact hs.entities scope hscope
  · intro ref href
    have htop : s'.scopes.get s.scopes.current = s.scopes.top := hkeeps.get_within hs.linked.current
    exact hs.self ref ((congrArg Scope.cls htop).symm.trans href)
  · exact fun c hc => ⟨(h.covers.classes c (hsub hc)).1, (hs.classes c hc).2⟩

end Declares

section Declarations

variable {s s' : State} {env : List Binder}

theorem declareVariable_closed (hs : Covers s env) {name : Text} {type : Ty} {readOnly : Bool}
    {pos : Pos} {v : Variable} (htype : type.In env)
    (h : Yields (declareVariable name type readOnly pos) s v s') :
    Declares s s' (.var v :: env) [.var v] := by
  obtain ⟨rfl, rfl⟩ := yields_declareVariable h
  refine ⟨hs.bindValue rfl ?_ name, .bind _ _ _, .singleton rfl rfl⟩
  exact ⟨.inr List.mem_cons_self, htype.mono (List.subset_cons_self _ _)⟩

theorem declareParams_closed (hs : Covers s env) {params : List Tree.Param} {types : List Ty}
    {vs : List Variable} (htypes : ∀ t ∈ types, t.In env)
    (h : Yields (declareParams params types) s vs s') :
    Declares s s' (Binder.ofVars (vs.map some) ++ env) (Binder.ofVars (vs.map some)) := by
  induction params generalizing s types vs env with
  | nil =>
    obtain ⟨rfl, rfl⟩ := yields_pure.mp h
    exact .refl hs
  | cons p params ih =>
    cases types with
    | nil =>
      obtain ⟨rfl, rfl⟩ := yields_pure.mp h
      exact .refl hs
    | cons type types =>
      simp only [declareParams, yields_bind, yields_pure] at h
      obtain ⟨v, t, hv, vs, _, hvs, rfl, rfl⟩ := h
      have hfirst := declareVariable_closed hs (htypes _ List.mem_cons_self) hv
      have hrest := ih hfirst.covers (fun t ht =>
        (htypes t (List.mem_cons_of_mem _ ht)).mono (List.subset_cons_self _ _)) hvs
      have hall := hfirst.trans hrest
      have hperm := @List.perm_middle _ (.var v) (Binder.ofVars (vs.map some)) env
      exact ⟨hall.covers.congr hperm.subset hperm.symm.subset, hall.keeps, hall.fresh⟩

theorem declareFunction_closed (hs : Covers s env) {name : Text} {params : List Tree.Param}
    {result : Option TypeExpr} {pos : Pos} {f : Function} {sig : Signature}
    (h : Yields (declareFunction name params result pos) s (f, sig) s') :
    Declares s s' (.function f :: env) [.function f] ∧ sig.type.In env := by
  obtain ⟨rfl, rfl, _, hsig⟩ := yields_declareFunction h
  obtain ⟨-, hin⟩ := (givesTypes_in (hs.types.bind (e := .function _) trivial)).signature hsig
  refine ⟨⟨hs.bindValue rfl ?_ name, .bind _ _ _, .singleton rfl rfl⟩, hin⟩
  exact ⟨.inr List.mem_cons_self, hin.mono (List.subset_cons_self _ _)⟩

/-- A class with a new identity is found by it, and the classes before it are found as before. -/
theorem find?_class_append {classes : List Class} {c k : Class}
    (hnew : ∀ k ∈ classes, k.ref.id < c.ref.id)
    (hk : k = c ∨ classes.find? (fun x => x.ref == k.ref) = some k) :
    (classes ++ [c]).find? (fun x => x.ref == k.ref) = some k := by
  rw [List.find?_append]
  rcases hk with rfl | hk
  · have hnone : classes.find? (fun x => x.ref == k.ref) = none := by
      rw [List.find?_eq_none]
      intro x hx heq
      have hlt := hnew x hx
      rw [beq_iff_eq.mp heq] at hlt
      exact Nat.lt_irrefl _ hlt
    rw [hnone]
    simp
  · rw [hk]
    rfl

theorem declareClass_closed (hs : Covers s env) {name : Text} {fields : List Tree.Field}
    {methods : List Tree.Func} {pos : Pos} {c : Class} {signatures : List Signature}
    (h : Yields (declareClass name fields methods pos) s (c, signatures) s') :
    Declares s s' (.cls c :: env) [.cls c] ∧ ∀ sig ∈ signatures, sig.type.In (.cls c :: env) := by
  obtain ⟨fs, ms, hfields, hmethods, hc, rfl, rfl⟩ := yields_declareClass h
  have href : c.ref = ⟨s.nextId, name⟩ := by rw [hc]; rfl
  -- The class is in scope where its members are, so their types may name it.
  have hname : (Ty.cls ⟨s.nextId, name⟩).In (.cls c :: env) :=
    Ty.in_cls.mpr ⟨c, List.mem_cons_self, href⟩
  have hvisible : (s.scopes.bind name (.type name (.cls ⟨s.nextId, name⟩))).Visible
      (Entity.TypeIn (.cls c :: env)) := by
    refine Scopes.Visible.bind (hs.types.imp fun e he => ?_) hname
    cases e with
    | var | function => trivial
    | type => exact Ty.In.mono he (List.subset_cons_self _ _)
  obtain ⟨hsigs, -⟩ := (givesTypes_in hvisible).methodsOf hmethods
  have hmembers : c.In (.cls c :: env) := by
    rw [hc] at hvisible hsigs ⊢
    exact ofMembers_in ((givesTypes_in hvisible).fieldsOf hfields).1 hsigs
  refine ⟨⟨hs.bind (e := .type name _) hname name (fun k hk => ?_) ?_, .bind _ _ _,
    .singleton (congrArg ClassRef.id href) rfl⟩, ?_⟩
  · have hnew : ∀ k ∈ s.classes, k.ref.id < c.ref.id := by
      rw [href]
      exact hs.fresh
    rcases List.mem_cons.mp hk with heq | hk
    · cases heq
      exact ⟨find?_class_append hnew (.inl rfl), hmembers⟩
    · exact ⟨find?_class_append hnew (.inr (hs.classes k hk).1),
        (hs.classes k hk).2.mono (List.subset_cons_self _ _)⟩
  · refine List.forall_mem_append.mpr ⟨fun k hk => Nat.lt_succ_of_lt (hs.fresh k hk), ?_⟩
    rw [List.forall_mem_singleton, href]
    exact Nat.lt_succ_self _
  · exact List.forall_mem_map.mpr hsigs

end Declarations

section Statements

variable {s s' : State} {env : List Binder}

/-- Statements that were let through in a state are closed there, and after them their binders are in
scope. -/
structure Placed (s s' : State) (env : List Binder) (body : List Stmt) : Prop where
  closed : Stmt.ClosedAll env body
  declares : Declares s s' (Stmt.extend env body) (Stmt.boundInAll body)

/-- A body in a scope of its own takes its binders with it. -/
theorem Placed.leave {o : Scope.Overrides} {body : List Stmt} (hs : Covers s env)
    (h : Placed (s.enter o) s' env body) :
    Stmt.ClosedAll env body ∧ Declares s s'.leave env (Stmt.boundInAll body) :=
  ⟨h.closed, h.declares.leave hs (Stmt.subset_extend env body)⟩

theorem Passes.binders_branch {b : Tree.Branch} {r : Stmt} (h : Passes s (.branch b) r s') :
    r.binders = [] := by
  cases h <;> rfl

mutual

/-- A statement that is let through is closed, and brings its binders into scope. -/
theorem Passes.closed {s s' : State} {env : List Binder} {t : Tree.Stmt} {r : Stmt}
    (hs : Covers s env) (h : Passes s t r s') :
    r.Closed env ∧ Declares s s' (r.binders ++ env) r.bound := by
  cases h with
  | declare hinit hv =>
    obtain ⟨hclosed, htype⟩ := hinit.closed hs
    exact ⟨hclosed, declareVariable_closed hs htype hv⟩
  | function hf hbody =>
    obtain ⟨hdeclared, hsig⟩ := declareFunction_closed hs hf
    obtain ⟨hclosed, hinside⟩ := hbody.closed hdeclared.covers
      (hsig.mono (List.subset_cons_self _ _)) fun ref href => by cases href
    exact ⟨hclosed, hdeclared.trans hinside⟩
  | cls hc hbodies =>
    obtain ⟨hdeclared, hsigs⟩ := declareClass_closed hs hc
    obtain ⟨hclosed, hinside⟩ := hbodies.closed hdeclared.covers ⟨_, List.mem_cons_self, rfl⟩ hsigs
    exact ⟨hclosed, hdeclared.trans hinside⟩
  | assign htarget hplace hsource hfits =>
    exact ⟨⟨(htarget.closed hs).1, (hsource.closed hs).1⟩, .refl hs⟩
  | branch htest hbool hbody hother =>
    obtain ⟨hconsequent, hinside⟩ := (hbody.closed (hs.enter .nothing nofun)).leave hs
    obtain ⟨hother, hotherwise⟩ := hother.closed hinside.covers
    exact ⟨⟨(htest.closed hs).1, hconsequent, hother⟩, hinside.trans hotherwise⟩
  | shortBranch htest hbool hbody hother =>
    obtain ⟨hconsequent, hinside⟩ := (hbody.closed (hs.enter .nothing nofun)).leave hs
    obtain ⟨-, hotherwise⟩ := hother.closed hinside.covers
    refine ⟨⟨(htest.closed hs).1, hconsequent⟩, ?_⟩
    simpa [Stmt.binders, Stmt.bound, Stmt.boundInAll] using hinside.trans hotherwise
  | loop htest hbool hbody =>
    obtain ⟨hclosed, hdeclares⟩ := (hbody.closed (hs.enter .ofLoop nofun)).leave hs
    exact ⟨⟨(htest.closed hs).1, hclosed⟩, hdeclares⟩
  | @forEach _ _ _ _ _ _ _ _ _ _ _ r _ he hbase hv hbody =>
    obtain ⟨hcollection, htype⟩ := he.closed hs
    rw [hbase, Ty.in_array] at htype
    have hvariable := declareVariable_closed (hs.enter .ofLoop nofun) htype hv
    have hinside := hbody.closed hvariable.covers
    refine ⟨⟨hcollection, hinside.closed⟩, (hvariable.trans hinside.declares).leave hs ?_⟩
    exact List.Subset.trans (List.subset_cons_self _ _) (Stmt.subset_extend _ r)
  | leave | retNothing => exact ⟨trivial, .refl hs⟩
  | bump hvalue | ret _ _ hvalue | print hvalue | call hvalue =>
    exact ⟨(hvalue.closed hs).1, .refl hs⟩
termination_by sizeOf t

theorem PassesOther.closed {s s' : State} {env : List Binder} {o : Tree.Otherwise}
    {r : Option (List Stmt)} (hs : Covers s env) (h : PassesOther s o r s') :
    Stmt.ClosedAll env (r.getD []) ∧ Declares s s' env (Stmt.boundInAll (r.getD [])) := by
  cases h with
  | nothing => exact ⟨trivial, .refl hs⟩
  | block hbody => exact (hbody.closed (hs.enter .nothing nofun)).leave hs
  | @chain _ next _ _ hnext =>
    obtain ⟨hclosed, hdeclares⟩ := hnext.closed hs
    rw [Option.getD_some, Stmt.boundInAll_singleton]
    rw [hnext.binders_branch] at hdeclares
    exact ⟨⟨hclosed, trivial⟩, hdeclares⟩
termination_by sizeOf o + 1

theorem PassesAll.closed {s s' : State} {env : List Binder} {ts : List Tree.Stmt} {rs : List Stmt}
    (hs : Covers s env) (h : PassesAll s ts rs s') : Placed s s' env rs := by
  cases h with
  | nil => exact ⟨trivial, .refl hs⟩
  | cons hr hrs =>
    obtain ⟨hclosed, hdeclares⟩ := hr.closed hs
    have hrest := hrs.closed hdeclares.covers
    exact ⟨⟨hclosed, hrest.closed⟩, hdeclares.trans hrest.declares⟩
termination_by sizeOf ts

theorem PassesBody.closed {s s' : State} {env : List Binder} {params : List Tree.Param}
    {sig : Signature} {o : Scope.Overrides} {body : List Tree.Stmt} {vs : List (Option Variable)}
    {r : List Stmt} (hs : Covers s env) (hsig : sig.type.In env)
    (ho : ∀ ref, o.cls = some ref → ref.In env) (h : PassesBody s params sig o body vs r s') :
    Stmt.ClosedAll (Binder.ofVars vs ++ env) r ∧
      Declares s s' env (Binder.ofVars vs ++ Stmt.boundInAll r) := by
  cases h with
  | mk hparams hbody =>
    have hdeclared := declareParams_closed (hs.enter o ho) (Ty.in_function.mp hsig).1 hparams
    have hinside := hbody.closed hdeclared.covers
    refine ⟨hinside.closed, (hdeclared.trans hinside.declares).leave hs ?_⟩
    exact List.Subset.trans (List.subset_append_right _ _) (Stmt.subset_extend _ r)
termination_by sizeOf body + 1

theorem PassesMethods.closed {s s' : State} {env : List Binder} {ref : ClassRef}
    {funcs : List Tree.Func} {methods : List (Option Method)} {sigs : List Signature}
    {rs : List MethodBody} (hs : Covers s env) (href : ref.In env) (hsigs : ∀ sig ∈ sigs, sig.type.In env)
    (h : PassesMethods ref s funcs methods sigs rs s') :
    MethodBody.ClosedAll env rs ∧ Declares s s' env (MethodBody.boundInAll rs) := by
  cases h with
  | nil => exact ⟨trivial, .refl hs⟩
  | cons hbody hrest =>
    obtain ⟨hsig, hsigs⟩ := List.forall_mem_cons.mp hsigs
    obtain ⟨hclosed, hinside⟩ := hbody.closed hs hsig fun _ heq => by cases heq; exact href
    obtain ⟨hrestClosed, hrestInside⟩ := hrest.closed hinside.covers href hsigs
    exact ⟨⟨hclosed, hrestClosed⟩, hinside.trans hrestInside⟩
termination_by sizeOf funcs

end

/-- A program that is let through is closed. -/
theorem program_closed {t : Tree.Program} {program : Typed.Program} (h : analyze t = .ok program) :
    program.Closed := by
  obtain ⟨s, hpasses⟩ := analyze_passes h
  have hplaced := hpasses.closed covers_start
  exact ⟨hplaced.closed, hplaced.declares.fresh.unique, hplaced.declares.fresh.own⟩

end Statements

/-- Every expression of a program that obeys the rules keeps its type when it is simplified. -/
theorem type_simplify_of_mem {program : Typed.Program} (h : program.WellTyped) {s : Stmt}
    (hs : s ∈ Stmt.partsOfAll program) {e x : Expr} (he : e ∈ s.exprs) (hx : x ∈ e.parts) :
    x.simplify.type = x.type := by
  obtain ⟨function, hstatement⟩ := Stmt.WellTypedAll.parts program h s hs
  rcases hstatement.exprs e he with rfl | htyped
  · cases List.mem_singleton.mp hx
    rfl
  · exact (x.simplify_replaces (htyped.parts e x hx)).type_eq

/-- A program that is let through still obeys the static rules after it was simplified, although some
of its classes may be gone. Each of its expressions is replaced by one of an equivalent type, which may
be stored wherever the expression could be, and stays a place if it was one. -/
theorem analyze_simplify_wellTyped (t : Tree.Program) (program : Typed.Program)
    (h : analyze t = .ok program) :
    program.simplify.WellTyped ∧
      ∀ s ∈ Stmt.partsOfAll program, ∀ e ∈ s.exprs, ∀ x ∈ e.parts,
        x.simplify.type.equivalent x.type = true ∧
          (∀ target, x.type.assignable target = true → x.simplify.type.assignable target = true) ∧
          (∀ source : Ty, source.assignable x.type = true →
            source.assignable x.simplify.type = true) ∧
          (x.IsPlace → x.simplify.IsPlace) := by
  obtain ⟨state, hchecked⟩ := analyze_checked h
  have hrules := hchecked.wellTyped
  refine ⟨hrules.simplify (program_closed h), fun s hs e he x hx => ?_⟩
  rw [type_simplify_of_mem hrules hs he hx]
  exact ⟨Ty.equivalent_self _, fun _ hfits => hfits, fun _ hfits => hfits, Expr.IsPlace.simplify⟩

section Examples

/-- A class, an object of it, another class where it is never reached, and an assignment to a field of
the object. -/
private def serving : Tree.Program :=
  let p := Pos.start
  [.cls "Cup" [⟨"size", .named "pump" p, p⟩]
      [.mk "fill" [⟨"n", .named "pump" p, p⟩] (some (.named "pump" p))
        [.ret (some (.binary .add (.member (.shot p) "size" p) (.name "n" p) p)) p] p p] p,
    .declare "cup" false (.call (.name "Cup" p) [.int "2" p] p) p,
    .branch (.mk (.bool false p)
      [.cls "Lid" [] [] p, .declare "lid" true (.call (.name "Lid" p) [] p) p] p .nothing p),
    .assign (.member (.name "cup" p) "size" p)
      (.conditional (.bool true p) (.call (.member (.name "cup" p) "fill" p) [.int "0" p] p)
        (.int "1" p) p) p]

private def cupClass : Class :=
  Class.ofMembers ⟨9, "Cup"⟩ [("size", .pump)] [("fill", some ⟨[.pump], .pump⟩)]

private def lidClass : Class := Class.ofMembers ⟨12, "Lid"⟩ [] []

/-- `cup`. -/
private def cupExpr : Expr := .var (some ⟨11, "cup", .cls ⟨9, "Cup"⟩, false, false⟩)

/-- `cup.size`. -/
private def sizeExpr : Expr := .member cupExpr (some ⟨9, 0, "size", .pump⟩) none .pump

/-- `cup.fill(0)`. -/
private def fillExpr : Expr :=
  .call (.member cupExpr none (some ⟨9, 0, "fill", some ⟨[.pump], .pump⟩⟩) (.function [.pump] .pump))
    [.int 0] .pump

/-- `cup.fill(0)` if it is true, 1 otherwise. -/
private def chosenExpr : Expr := .conditional (.bool true) fillExpr (.int 1) .pump

private def served : Typed.Program :=
  let n : Variable := ⟨10, "n", .pump, false, false⟩
  let self : Expr := .self (some ⟨9, "Cup"⟩)
  [.cls (some cupClass)
      [.mk (some ⟨9, 0, "fill", some ⟨[.pump], .pump⟩⟩) [some n]
        [.ret (.binary .plus (.member self (some ⟨9, 0, "size", .pump⟩) none .pump) (.var (some n))
          .pump)]],
    .declare (some ⟨11, "cup", .cls ⟨9, "Cup"⟩, false, false⟩)
      (.call (.cls (some ⟨9, "Cup"⟩) (.function [.pump] (.cls ⟨9, "Cup"⟩))) [.int 2]
        (.cls ⟨9, "Cup"⟩)),
    .shortBranch (.bool false)
      [.cls (some lidClass) [],
        .declare (some ⟨13, "lid", .cls ⟨12, "Lid"⟩, true, false⟩)
          (.call (.cls (some ⟨12, "Lid"⟩) (.function [] (.cls ⟨12, "Lid"⟩))) []
            (.cls ⟨12, "Lid"⟩))],
    .assign sizeExpr chosenExpr]

theorem analyze_simplify_wellTyped_serving :
    analyze serving = .ok served ∧ served.simplify.WellTyped ∧
      Stmt.classesOfAll served = [cupClass, lidClass] ∧
      Stmt.classesOfAll served.simplify = [cupClass] ∧
      (chosenExpr.simplify = fillExpr ∧ fillExpr.type.equivalent chosenExpr.type = true) ∧
      (sizeExpr.IsPlace ∧ sizeExpr.simplify.IsPlace) := by
  have hrun : analyze serving = .ok served := rfl
  obtain ⟨hrules, hexprs⟩ := analyze_simplify_wellTyped serving served hrun
  have hassign : Stmt.assign sizeExpr chosenExpr ∈ Stmt.partsOfAll served :=
    List.getElem_mem (n := 6) (by decide)
  have hchosen := hexprs _ hassign chosenExpr (List.mem_cons_of_mem _ List.mem_cons_self) chosenExpr
    List.mem_cons_self
  have hsize := hexprs _ hassign sizeExpr List.mem_cons_self sizeExpr List.mem_cons_self
  exact ⟨hrun, hrules, rfl, rfl, ⟨rfl, hchosen.1⟩, trivial, hsize.2.2.2 trivial⟩

end Examples

end Analysis

end PeakLang
