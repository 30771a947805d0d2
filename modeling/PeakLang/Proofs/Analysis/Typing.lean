import PeakLang.Proofs.Analysis.Passes

namespace PeakLang

open Typed (Expr Stmt MethodBody)

namespace Entity

/-- Whether an entity is a known type, if it is a type. -/
def TypeKnown : Entity → Prop
  | type _ t => t.known = true
  | _ => True

/-- Whether everything is known about an entity, where `classes` are declared. -/
def Known (classes : List Class) : Entity → Prop
  | var v => v.type.known = true
  | function f => ∃ s, f.signature = some s ∧ s.known = true
  | type _ t => t.known = true ∧ ∀ ref, t = .cls ref → ∃ c ∈ classes, c.ref = ref

/-- Whether an entity goes by a name, a type in its description. Function types have none. -/
def Described (name : Text) : Entity → Prop
  | var v => v.name = name
  | function f => f.name = name
  | type _ t => t.describe = name ∧ t.isFunction = false

theorem Known.typeKnown {classes : List Class} {e : Entity} (h : e.Known classes) : e.TypeKnown := by
  cases e with
  | var | function => trivial
  | type => exact h.1

theorem Known.mono {classes classes' : List Class} {e : Entity} (h : e.Known classes)
    (hsub : classes ⊆ classes') : e.Known classes' := by
  cases e with
  | var | function => exact h
  | type =>
    refine ⟨h.1, fun ref href => ?_⟩
    obtain ⟨c, hc, heq⟩ := h.2 ref href
    exact ⟨c, hsub hc, heq⟩

theorem known_builtin {classes : List Class} :
    ∀ e ∈ builtins, e.Known classes ∧ e.Described e.name := by
  intro e he
  simp only [builtins, Prim.all, builtinValues, List.map_cons, List.map_nil, List.cons_append,
    List.nil_append, List.mem_cons, List.not_mem_nil, or_false] at he
  rcases he with rfl | rfl | rfl | rfl | rfl | rfl | rfl | rfl | rfl | rfl | rfl | rfl | rfl | rfl | rfl
  all_goals first
    | exact ⟨⟨rfl, fun ref href => nomatch href⟩, rfl, rfl⟩
    | exact ⟨⟨_, rfl, rfl⟩, rfl⟩
    | exact ⟨rfl, rfl⟩

end Entity

namespace Analysis

/-- Everything in force is known, each by its name, and the current scope is not the outermost one. -/
structure State.Sound (s : State) : Prop where
  positive : 0 < s.scopes.current
  open_ : s.scopes.current < s.scopes.all.size
  entities : s.scopes.Holds (Entity.Known s.classes)
  described : s.scopes.HoldsAt Entity.Described
  classes : ∀ c ∈ s.classes, c.Known

theorem State.start_sound : State.start.Sound := by
  have hroot : Scopes.HoldsAt (fun name e => e.Known [] ∧ e.Described name) ⟨#[.root], 0⟩ := by
    intro i d hd
    have hget : Scopes.get ⟨#[.root], 0⟩ i = .root := by
      cases i <;> simp [Scopes.get]
    rw [hget] at hd
    obtain ⟨e, he, rfl⟩ := List.mem_map.mp hd
    exact Entity.known_builtin e he
  have hstart := hroot.push .nothing
  exact ⟨by decide, by decide, fun i d hd => (hstart i d hd).1, fun i d hd => (hstart i d hd).2,
    fun _ hc => absurd hc List.not_mem_nil⟩

theorem givesTypes_known {scopes : Scopes} (hs : scopes.Holds Entity.TypeKnown) :
    GivesTypes scopes fun t => t.known = true where
  find? h := hs.find? h
  none := rfl
  array h := h
  optional h := h
  function hparams hresult := by
    rw [Ty.known, Bool.and_eq_true, Ty.knownAll_iff]
    exact ⟨hparams, hresult⟩

section Expressions

variable {s : State} {classes : List Class}

mutual

/-- What is found for an expression obeys the rules. -/
theorem Finds.wellTyped (hs : s.Sound) (hclasses : s.classes ⊆ classes) {t : Tree.Expr} {e : Expr}
    (h : Finds s t e) : e.WellTyped classes := by
  cases h with
  | int | float | string | bool => trivial
  | var hfind => exact ⟨_, rfl, hs.entities.find? hfind⟩
  | function hfind =>
    obtain ⟨sig, hsig, hknown⟩ := hs.entities.find? hfind
    exact ⟨_, sig, rfl, hsig, hknown⟩
  | shot => rfl
  | unary ho hrule => exact ⟨ho.wellTyped hs hclasses, hrule⟩
  | binary hl hr hrule => exact ⟨hl.wellTyped hs hclasses, hr.wellTyped hs hclasses, hrule⟩
  | conditional ht hbool hc ha hsame =>
    exact ⟨ht.wellTyped hs hclasses, hc.wellTyped hs hclasses, ha.wellTyped hs hclasses, hbool, hsame,
      rfl⟩
  | call hf htype has hfit =>
    exact ⟨hf.wellTyped hs hclasses, has.wellTyped hs hclasses, _, htype, hfit⟩
  | new hfind hclass has hfit =>
    exact ⟨⟨_, hclasses (class?_eq_some hclass).1, rfl, rfl⟩, has.wellTyped hs hclasses, _, rfl, hfit⟩
  | index ho hbase hi hint => exact ⟨ho.wellTyped hs hclasses, hi.wellTyped hs hclasses, hbase, hint⟩
  | field ho htype hclass hfield =>
    refine ⟨ho.wellTyped hs hclasses, ?_⟩
    rw [htype]
    exact .field (hclasses (class?_eq_some hclass).1) (List.mem_of_find?_eq_some hfield)
  | method ho htype hclass hmethod =>
    refine ⟨ho.wellTyped hs hclasses, ?_⟩
    rw [htype]
    exact .method (hclasses (class?_eq_some hclass).1) (Class.mem_of_method? hmethod)
  | array hf hfs hsame =>
    refine ⟨List.cons_ne_nil _ _, ⟨hf.wellTyped hs hclasses, hfs.wellTyped hs hclasses⟩, _, rfl, ?_⟩
    exact List.forall_mem_cons.mpr ⟨Ty.equivalent_self _, hsame⟩
  | emptyArray htype =>
    have hknown := (givesTypes_known (hs.entities.imp fun _ => Entity.Known.typeKnown)).resolve htype
    exact ⟨_, rfl, hknown⟩

theorem FindsAll.wellTyped (hs : s.Sound) (hclasses : s.classes ⊆ classes) {ts : List Tree.Expr}
    {es : List Expr} (h : FindsAll s ts es) : Expr.WellTypedAll classes es := by
  cases h with
  | nil => trivial
  | cons he hes => exact ⟨he.wellTyped hs hclasses, hes.wellTyped hs hclasses⟩

end

theorem Finds.known (hs : s.Sound) {t : Tree.Expr} {e : Expr} (h : Finds s t e) :
    e.type.known = true :=
  (h.wellTyped hs (List.Subset.refl _)).type_known hs.classes

theorem Finds.base_known (hs : s.Sound) {t : Tree.Expr} {e : Expr} {base : Ty} (h : Finds s t e)
    (hbase : e.type = .array base) : base.known = true := by
  have hknown := h.known hs
  rwa [hbase] at hknown

end Expressions

/-- What an analysis that finds no fault does to the state: it declares names and classes, and leaves
every scope that it opens. -/
structure Step (s s' : State) (declared : List Class) : Prop where
  sound : s'.Sound
  grows : s.scopes.Grows s'.scopes
  classes : s'.classes = s.classes ++ declared

namespace Step

variable {s s' s'' : State} {declared declared' : List Class}

theorem refl (hs : s.Sound) : Step s s [] := ⟨hs, .refl _, by simp⟩

theorem trans (h : Step s s' declared) (h' : Step s' s'' declared') :
    Step s s'' (declared ++ declared') :=
  ⟨h'.sound, h.grows.trans h'.grows, by rw [h'.classes, h.classes, List.append_assoc]⟩

theorem subset (h : Step s s' declared) : s.classes ⊆ s'.classes := by
  rw [h.classes]
  exact List.subset_append_left _ _

theorem function (hs : s.Sound) (h : Step s s' declared) : s'.scopes.function = s.scopes.function :=
  h.grows.function hs.open_

theorem enter_sound (hs : s.Sound) (o : Scope.Overrides) : (s.enter o).Sound where
  positive := Nat.lt_trans hs.positive hs.open_
  open_ := by simp [State.enter, Scopes.push]
  entities := hs.entities.push o
  described := hs.described.push o
  classes := hs.classes

/-- The state after a scope was left is the state before it was opened, but for what was declared. -/
theorem leave {o : Scope.Overrides} (hs : s.Sound) (h : Step (s.enter o) s' declared) :
    Step s s'.leave declared := by
  have hpop : s'.scopes.pop?.getD s'.scopes = { s'.scopes with current := s.scopes.current } := by
    rw [Scopes.Grows.pop? h.grows hs.positive]
    rfl
  have hgrows : s.scopes.Grows { s'.scopes with current := s.scopes.current } := h.grows.within
  rw [State.leave, hpop]
  exact ⟨⟨hs.positive, Nat.lt_of_lt_of_le hs.open_ hgrows.size, h.sound.entities, h.sound.described,
    h.sound.classes⟩, hgrows, h.classes⟩

theorem bind (hs : s.Sound) {name : Text} {e : Entity} (he : e.Known s.classes)
    (hname : e.Described name) (nextId : Nat) :
    Step s { s with scopes := s.scopes.bind name e, nextId } [] where
  sound := ⟨hs.positive, by simpa [Scopes.bind] using hs.open_, hs.entities.bind he,
    hs.described.bind hname, hs.classes⟩
  grows := .bind _ _ _
  classes := by simp

end Step

section Declarations

variable {s s' : State}

theorem declareVariable_step (hs : s.Sound) {name : Text} {type : Ty} {readOnly : Bool} {pos : Pos}
    {v : Variable} (hknown : type.known = true)
    (h : Yields (declareVariable name type readOnly pos) s v s') : Step s s' [] ∧ v.type = type := by
  obtain ⟨rfl, rfl⟩ := yields_declareVariable h
  exact ⟨.bind hs (e := .var ⟨s.nextId, name, type, _, _⟩) hknown rfl _, rfl⟩

theorem declareParams_step (hs : s.Sound) {params : List Tree.Param} {types : List Ty}
    {vs : List Variable} (hknown : ∀ t ∈ types, t.known = true)
    (h : Yields (declareParams params types) s vs s') :
    Step s s' [] ∧ (types.length = params.length → vs.map Variable.type = types) := by
  induction params generalizing s types vs with
  | nil =>
    obtain ⟨rfl, rfl⟩ := yields_pure.mp h
    exact ⟨.refl hs, fun hlength => (List.length_eq_zero_iff.mp hlength).symm⟩
  | cons p params ih =>
    cases types with
    | nil =>
      obtain ⟨rfl, rfl⟩ := yields_pure.mp h
      exact ⟨.refl hs, fun _ => rfl⟩
    | cons type types =>
      simp only [declareParams, yields_bind, yields_pure] at h
      obtain ⟨v, t, hv, vs, _, hvs, rfl, rfl⟩ := h
      obtain ⟨hfirst, rfl⟩ := declareVariable_step hs (hknown _ List.mem_cons_self) hv
      obtain ⟨hrest, htypes⟩ := ih hfirst.sound (fun t ht => hknown t (List.mem_cons_of_mem _ ht)) hvs
      refine ⟨hfirst.trans hrest, fun hlength => ?_⟩
      rw [List.map_cons, htypes (Nat.succ.inj hlength)]

theorem declareFunction_step (hs : s.Sound) {name : Text} {params : List Tree.Param}
    {result : Option TypeExpr} {pos : Pos} {f : Function} {sig : Signature}
    (h : Yields (declareFunction name params result pos) s (f, sig) s') :
    Step s s' [] ∧ f.signature = some sig ∧ sig.known = true ∧ sig.params.length = params.length := by
  obtain ⟨rfl, rfl, _, hsig⟩ := yields_declareFunction h
  have htypes : s.scopes.Holds Entity.TypeKnown := hs.entities.imp fun _ => Entity.Known.typeKnown
  obtain ⟨hlength, hknown⟩ :=
    (givesTypes_known (htypes.bind (e := .function _) trivial)).signature hsig
  refine ⟨?_, rfl, hknown, hlength⟩
  exact .bind hs (e := .function ⟨_, name, _, _⟩) ⟨_, rfl, hknown⟩ rfl _

theorem declareClass_step (hs : s.Sound) {name : Text} {fields : List Tree.Field}
    {methods : List Tree.Func} {pos : Pos} {c : Class} {signatures : List Signature}
    (h : Yields (declareClass name fields methods pos) s (c, signatures) s') :
    Step s s' [c] ∧ c.methods.map (fun m => m.bind Method.signature) = signatures.map some ∧
      (∀ sig ∈ signatures, sig.known = true) ∧
      List.Forall₂ (fun m sig => sig.params.length = (Tree.Func.params m).length)
        methods signatures := by
  obtain ⟨fs, ms, hfields, hmethods, rfl, rfl, rfl⟩ := yields_declareClass h
  have htypes : s.scopes.Holds Entity.TypeKnown := hs.entities.imp fun _ => Entity.Known.typeKnown
  have hnamed {n : Text} {ref : ClassRef} : GivesTypes (s.scopes.bind n (.type n (.cls ref))) _ :=
    givesTypes_known (htypes.bind (e := .type _ (.cls _)) rfl)
  obtain ⟨hknown, -, hlengths⟩ := hnamed.methodsOf hmethods
  refine ⟨⟨⟨hs.positive, by simpa [Scopes.bind] using hs.open_, ?_, hs.described.bind ⟨rfl, rfl⟩, ?_⟩,
    .bind _ _ _, rfl⟩, ?_, ?_, ?_⟩
  · apply Scopes.Holds.bind
    · exact hs.entities.imp fun e he => he.mono (List.subset_append_left _ _)
    · refine ⟨rfl, fun ref href => ?_⟩
      cases href
      exact ⟨_, List.mem_append_right _ List.mem_cons_self, rfl⟩
  · simp only [List.forall_mem_append, List.forall_mem_singleton]
    refine ⟨hs.classes, Class.ofMembers_known (hnamed.fieldsOf hfields).1 ?_⟩
    intro m hm
    obtain ⟨sig, hsig, rfl⟩ := List.mem_map.mp hm
    exact ⟨sig.2, rfl, hknown sig hsig⟩
  · rw [Class.ofMembers_signatures]
    simp
  · exact List.forall_mem_map.mpr hknown
  · rw [List.forall₂_map_right_iff]
    exact hlengths

end Declarations

section Statements

variable {s s' : State}

/-- Statements that were let through in a state obey the rules there, once all their classes are
declared. -/
structure Checked (s s' : State) (body : List Stmt) : Prop where
  step : Step s s' (Stmt.classesOfAll body)
  rules : ∀ classes, s'.classes ⊆ classes → Stmt.WellTypedAll classes s.scopes.function body

variable {body : List Stmt}

theorem Checked.leave {o : Scope.Overrides} (hs : s.Sound) (h : Checked (s.enter o) s' body) :
    Step s s'.leave (Stmt.classesOfAll body) ∧ ∀ classes, s'.leave.classes ⊆ classes →
      Stmt.WellTypedAll classes (o.function.or s.scopes.function) body := by
  refine ⟨h.step.leave hs, fun classes hsub => ?_⟩
  have hfunction : (s.enter o).scopes.function = o.function.or s.scopes.function := by
    change (s.scopes.push o).top.function = _
    rw [Scopes.top_push]
    rfl
  rw [← hfunction]
  exact h.rules classes hsub

theorem Checked.after {t : State} (hs : s.Sound) (hstep : Step s t []) (h : Checked t s' body) :
    Checked s s' body := by
  refine ⟨hstep.trans h.step, fun classes hsub => ?_⟩
  rw [← hstep.function hs]
  exact h.rules classes hsub

mutual

/-- A statement that is let through obeys the rules. -/
theorem Passes.checked {s s' : State} {t : Tree.Stmt} {r : Stmt} (hs : s.Sound)
    (h : Passes s t r s') :
    Step s s' r.classes ∧
      ∀ classes, s'.classes ⊆ classes → r.WellTyped classes s.scopes.function := by
  cases h with
  | declare hinit hv =>
    obtain ⟨hstep, htype⟩ := declareVariable_step hs (hinit.known hs) hv
    refine ⟨hstep, fun classes hsub => ⟨?_, _, rfl, htype⟩⟩
    exact hinit.wellTyped hs (List.Subset.trans hstep.subset hsub)
  | function hf hbody =>
    obtain ⟨hstep, hsig, hknown, hlength⟩ := declareFunction_step hs hf
    obtain ⟨hbodyStep, hparams, hrules⟩ := hbody.checked hstep.sound hknown hlength rfl
    exact ⟨hstep.trans hbodyStep, fun classes hsub => ⟨_, _, rfl, hsig, hknown, hparams,
      hrules classes hsub⟩⟩
  | @cls _ _ _ _ _ c _ t _ _ hc hbodies =>
    obtain ⟨hstep, hsigs, hknown, hlengths⟩ := declareClass_step hs hc
    obtain ⟨hbodiesStep, hmethods, hrules⟩ := hbodies.checked hstep.sound hsigs hknown hlengths
    have hc : c ∈ t.classes := by simp [hstep.classes]
    refine ⟨hstep.trans hbodiesStep, fun classes hsub => ⟨c, ?_, rfl, ?_, hmethods, ?_⟩⟩
    · exact hsub (hbodiesStep.subset hc)
    · exact hstep.sound.classes c hc
    · exact hrules classes hsub
  | assign htarget hplace hsource hfits =>
    exact ⟨.refl hs, fun classes hsub =>
      ⟨htarget.wellTyped hs hsub, hsource.wellTyped hs hsub, hplace, hfits⟩⟩
  | bump htarget hplace hint =>
    exact ⟨.refl hs, fun classes hsub => ⟨htarget.wellTyped hs hsub, hplace, hint⟩⟩
  | branch htest hbool hbody hother =>
    obtain ⟨hstep, hrules⟩ := (hbody.checked (Step.enter_sound hs _)).leave hs
    have hother := hother.checked hstep.sound
    have hall := hstep.trans hother.step
    refine ⟨hall, fun classes hsub => ⟨?_, hbool, ?_, ?_⟩⟩
    · exact htest.wellTyped hs (List.Subset.trans hall.subset hsub)
    · exact hrules classes (List.Subset.trans hother.step.subset hsub)
    · rw [← hstep.function hs]
      exact hother.rules classes hsub
  | shortBranch htest hbool hbody hother =>
    obtain ⟨hstep, hrules⟩ := (hbody.checked (Step.enter_sound hs _)).leave hs
    have hother := hother.checked hstep.sound
    have hall := hstep.trans hother.step
    refine ⟨by simpa [Stmt.classes, Stmt.classesOfAll] using hall, fun classes hsub => ⟨?_, hbool, ?_⟩⟩
    · exact htest.wellTyped hs (List.Subset.trans hall.subset hsub)
    · exact hrules classes (List.Subset.trans hother.step.subset hsub)
  | loop htest hbool hbody =>
    obtain ⟨hstep, hrules⟩ := (hbody.checked (Step.enter_sound hs _)).leave hs
    refine ⟨hstep, fun classes hsub => ⟨?_, hbool, hrules classes hsub⟩⟩
    exact htest.wellTyped hs (List.Subset.trans hstep.subset hsub)
  | forEach he hbase hv hbody =>
    have henter := Step.enter_sound hs .ofLoop
    obtain ⟨hvariable, rfl⟩ := declareVariable_step henter (he.base_known hs hbase) hv
    obtain ⟨hstep, hrules⟩ := ((hbody.checked hvariable.sound).after henter hvariable).leave hs
    refine ⟨hstep, fun classes hsub => ⟨?_, ⟨_, rfl, hbase⟩, hrules classes hsub⟩⟩
    exact he.wellTyped hs (List.Subset.trans hstep.subset hsub)
  | leave => exact ⟨.refl hs, fun _ _ => trivial⟩
  | retNothing hsig hresult => exact ⟨.refl hs, fun _ _ => ⟨_, hsig, .inl ⟨hresult, rfl⟩⟩⟩
  | ret hsig hresult hvalue hfits =>
    exact ⟨.refl hs, fun _ hsub => ⟨_, hsig, .inr ⟨hresult, hvalue.wellTyped hs hsub, hfits⟩⟩⟩
  | print hvalue => exact ⟨.refl hs, fun _ hsub => hvalue.wellTyped hs hsub⟩
  | call hcall => exact ⟨.refl hs, fun _ hsub => hcall.wellTyped hs hsub⟩
termination_by sizeOf t

theorem PassesOther.checked {s s' : State} {o : Tree.Otherwise} {r : Option (List Stmt)}
    (hs : s.Sound) (h : PassesOther s o r s') : Checked s s' (r.getD []) := by
  cases h with
  | nothing => exact ⟨.refl hs, fun _ _ => trivial⟩
  | block hbody =>
    obtain ⟨hstep, hrules⟩ := (hbody.checked (Step.enter_sound hs _)).leave hs
    exact ⟨hstep, hrules⟩
  | chain hnext =>
    obtain ⟨hstep, hrules⟩ := hnext.checked hs
    refine ⟨?_, fun classes hsub => ⟨hrules classes hsub, trivial⟩⟩
    simpa [Stmt.classesOfAll] using hstep
termination_by sizeOf o + 1

theorem PassesAll.checked {s s' : State} {ts : List Tree.Stmt} {rs : List Stmt} (hs : s.Sound)
    (h : PassesAll s ts rs s') : Checked s s' rs := by
  cases h with
  | nil => exact ⟨.refl hs, fun _ _ => trivial⟩
  | cons hr hrs =>
    obtain ⟨hstep, hrules⟩ := hr.checked hs
    have hrest := hrs.checked hstep.sound
    refine ⟨hstep.trans hrest.step, fun classes hsub => ⟨?_, ?_⟩⟩
    · exact hrules classes (List.Subset.trans hrest.step.subset hsub)
    · rw [← hstep.function hs]
      exact hrest.rules classes hsub
termination_by sizeOf ts

theorem PassesBody.checked {s s' : State} {params : List Tree.Param} {sig : Signature}
    {o : Scope.Overrides} {body : List Tree.Stmt} {vs : List (Option Variable)} {r : List Stmt}
    (hs : s.Sound) (hknown : sig.known = true) (hlength : sig.params.length = params.length)
    (ho : o.function = some sig) (h : PassesBody s params sig o body vs r s') :
    Step s s' (Stmt.classesOfAll r) ∧ Typed.ParamRule vs sig ∧
      ∀ classes, s'.classes ⊆ classes → Stmt.WellTypedAll classes (some sig) r := by
  cases h with
  | mk hparams hbody =>
    have henter := Step.enter_sound hs o
    obtain ⟨hstep, htypes⟩ := declareParams_step henter (Signature.known_iff.mp hknown).1 hparams
    obtain ⟨hleave, hrules⟩ := ((hbody.checked hstep.sound).after henter hstep).leave hs
    refine ⟨hleave, ?_, fun classes hsub => ?_⟩
    · rw [Typed.ParamRule, ← htypes hlength]
      simp
    · have hfunction := hrules classes hsub
      rwa [ho] at hfunction
termination_by sizeOf body + 1

theorem PassesMethods.checked {s s' : State} {ref : ClassRef} {funcs : List Tree.Func}
    {methods : List (Option Method)} {sigs : List Signature} {rs : List MethodBody} (hs : s.Sound)
    (hsigs : methods.map (fun m => m.bind Method.signature) = sigs.map some)
    (hknown : ∀ sig ∈ sigs, sig.known = true)
    (hlengths : List.Forall₂ (fun m sig => sig.params.length = (Tree.Func.params m).length) funcs sigs)
    (h : PassesMethods ref s funcs methods sigs rs s') :
    Step s s' (MethodBody.classesOfAll rs) ∧ rs.map MethodBody.method = methods ∧
      ∀ classes, s'.classes ⊆ classes → MethodBody.WellTypedAll classes rs := by
  cases h with
  | nil => exact ⟨.refl hs, rfl, fun _ _ => trivial⟩
  | cons hbody hrest =>
    simp only [List.map_cons, List.cons.injEq, Option.bind_eq_some_iff] at hsigs
    obtain ⟨⟨n, rfl, hsig⟩, hsigs⟩ := hsigs
    obtain ⟨hfirst, hknown⟩ := List.forall_mem_cons.mp hknown
    obtain ⟨hlength, hlengths⟩ := List.forall₂_cons.mp hlengths
    obtain ⟨hstep, hparams, hrules⟩ := hbody.checked hs hfirst hlength rfl
    obtain ⟨hrestStep, hmethods, hrestRules⟩ := hrest.checked hstep.sound hsigs hknown hlengths
    refine ⟨hstep.trans hrestStep, by rw [List.map_cons, hmethods]; rfl, fun classes hsub => ?_⟩
    refine ⟨⟨n, _, rfl, hsig, hparams, ?_⟩, hrestRules classes hsub⟩
    exact hrules classes (List.Subset.trans hrestStep.subset hsub)
termination_by sizeOf funcs

end

theorem Checked.wellTyped {program : Typed.Program} (h : Checked .start s program) :
    program.WellTyped := by
  refine h.rules _ ?_
  rw [h.step.classes]
  exact List.Subset.refl _

theorem analyze_checked {t : Tree.Program} {program : Typed.Program} (h : analyze t = .ok program) :
    ∃ s, Checked .start s program := by
  obtain ⟨s, hpasses⟩ := analyze_passes h
  exact ⟨s, hpasses.checked State.start_sound⟩

end Statements

/-- Every node of a program that analysis lets through obeys the static rules. -/
theorem analyze_wellTyped (t : Tree.Program) (program : Typed.Program) (h : analyze t = .ok program) :
    program.WellTyped := by
  obtain ⟨s, hchecked⟩ := analyze_checked h
  exact hchecked.wellTyped

/-- A class with a field and a method that calls itself on another object, and a loop over a field. -/
private def fleet : Tree.Program :=
  let p := Pos.start
  [.cls "Cup" [⟨"sizes", .array (.named "pump" p) p, p⟩]
      [.mk "sum" [⟨"other", .named "Cup" p, p⟩] (some (.named "pump" p))
        [.ret (some (.call (.member (.name "other" p) "sum" p) [.shot p] p)) p] p p] p,
    .declare "cup" false (.call (.name "Cup" p) [.array [.int "2" p, .int "3" p] p] p) p,
    .forEach "size" p (.member (.name "cup" p) "sizes" p)
      [.branch (.mk (.binary .lt (.name "size" p) (.int "3" p) p)
        [.print (.binary .add (.name "size" p) (.unary .neg (.int "1" p) p) p) p] p
        (.block [.leave p] p) p)] p p]

theorem analyze_wellTyped_fleet : ∃ program, analyze fleet = .ok program ∧ program.WellTyped :=
  ⟨_, rfl, analyze_wellTyped fleet _ rfl⟩

end Analysis

end PeakLang
