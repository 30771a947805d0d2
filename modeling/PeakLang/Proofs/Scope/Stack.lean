import Mathlib.Data.Finmap
import PeakLang.Proofs.Scope.Chain

namespace PeakLang.Scopes

/-- What shows of scopes. -/
structure View where
  find? : Text → Option Entity
  findLocal? : Text → Option Entity
  inLoop : Bool
  function : Option Signature
  cls : Option ClassRef
  depth : Nat

/-- What can be done with scopes. -/
inductive Op where
  | push (o : Scope.Overrides)
  | pop
  | add (name : Text) (e : Entity)
  | find (name : Text)
  | findLocal (name : Text)

/-- What an operation answers. -/
inductive Answer where
  | done
  | found (e : Option Entity)
  | refused (message : Text)
deriving DecidableEq

/-- A way to keep scopes, with what shows of them. -/
structure Machine (σ : Type) where
  push : σ → Scope.Overrides → σ
  pop? : σ → Option σ
  add? : σ → Text → Entity → Option σ
  view : σ → View

namespace Machine

variable {σ τ : Type}

/-- One operation: what it answers, and the scopes after it. -/
def step (m : Machine σ) (s : σ) : Op → Answer × σ
  | .push o => (.done, m.push s o)
  | .pop =>
    match m.pop? s with
    | some s' => (.done, s')
    | none => (.refused popMessage, s)
  | .add name e =>
    match m.add? s name e with
    | some s' => (.done, s')
    | none => (.refused (duplicateMessage name), s)
  | .find name => (.found ((m.view s).find? name), s)
  | .findLocal name => (.found ((m.view s).findLocal? name), s)

/-- An operation that is refused changes nothing. -/
theorem step_refused {m : Machine σ} {s : σ} {op : Op} {message : Text}
    (h : (m.step s op).1 = .refused message) : (m.step s op).2 = s := by
  cases op with
  | push o => cases h
  | pop | add name e =>
    simp only [step] at h ⊢
    split at h
    · cases h
    · rfl
  | find name | findLocal name => rfl

/-- Operations in a row: what each of them answers and what shows after it, and the scopes after all of
them. -/
def run (m : Machine σ) (s : σ) : List Op → List (Answer × View) × σ
  | [] => ([], s)
  | op :: ops =>
    let next := m.step s op
    let rest := m.run next.2 ops
    ((next.1, m.view next.2) :: rest.1, rest.2)

/-- Two ways to keep scopes go together: related scopes look alike, and each operation answers the same
on both and leads to related scopes. -/
structure Simulates (m : Machine σ) (m' : Machine τ) (R : σ → τ → Prop) : Prop where
  view : ∀ {s t}, R s t → m.view s = m'.view t
  step : ∀ {s t}, R s t → ∀ op, (m.step s op).1 = (m'.step t op).1 ∧
    R (m.step s op).2 (m'.step t op).2

/-- What holds of one operation holds of any number of them. -/
theorem Simulates.run {m : Machine σ} {m' : Machine τ} {R : σ → τ → Prop} (h : m.Simulates m' R)
    {s : σ} {t : τ} (hR : R s t) (ops : List Op) :
    (m.run s ops).1 = (m'.run t ops).1 ∧ R (m.run s ops).2 (m'.run t ops).2 := by
  induction ops generalizing s t with
  | nil => exact ⟨rfl, hR⟩
  | cons op ops ih =>
    obtain ⟨hanswer, hnext⟩ := h.step hR op
    obtain ⟨hanswers, hlast⟩ := ih hnext
    refine ⟨?_, hlast⟩
    simp only [Machine.run, hanswer, h.view hnext, hanswers]

end Machine

/-- The scopes as they are kept. -/
def arena : Machine Scopes where
  push := Scopes.push
  pop? := Scopes.pop?
  add? := Scopes.add?
  view s := ⟨s.find?, s.findLocal?, s.inLoop, s.function, s.cls, s.depth⟩

/-- A frame of a stack: a finite map of names, and what the frame lies in. -/
structure Frame where
  locals : Finmap fun _ : Text => Entity
  inLoop : Bool
  function : Option Signature
  cls : Option ClassRef

namespace Frame

/-- What is built in, in no loop, function or class. -/
def builtin : Frame where
  locals := (Entity.builtins.map fun e => (⟨e.name, e⟩ : (_ : Text) × Entity)).toFinmap
  inLoop := false
  function := none
  cls := none

/-- An empty frame over another. What is not set is inherited; the class may be dropped instead. -/
def inside (around : Frame) (o : Scope.Overrides) : Frame where
  locals := ∅
  inLoop := match o.inLoop with
    | some inLoop => inLoop
    | none => around.inLoop
  function := match o.function with
    | some signature => some signature
    | none => around.function
  cls := match o.cls, o.resetClass with
    | some cls, _ => some cls
    | none, true => none
    | none, false => around.cls

end Frame

/-- The frames over what is built in: the current one, and those below it down to the program's. -/
structure Stack where
  top : Frame
  below : List Frame

namespace Stack

/-- The frames of a stack, the current one first and what is built in last. -/
def frames (t : Stack) : List Frame := t.top :: t.below ++ [.builtin]

/-- An empty program. -/
def start : Stack := ⟨Frame.builtin.inside .nothing, []⟩

/-- A new frame on top. -/
def push (t : Stack) (o : Scope.Overrides) : Stack := ⟨t.top.inside o, t.top :: t.below⟩

/-- The stack without its current frame, unless that is the program's. -/
def pop? (t : Stack) : Option Stack :=
  match t.below with
  | [] => none
  | f :: rest => some ⟨f, rest⟩

/-- The stack with a name declared in its current frame, unless that frame declares it already. -/
def add? (t : Stack) (name : Text) (e : Entity) : Option Stack :=
  if name ∈ t.top.locals then none
  else some { t with top := { t.top with locals := t.top.locals.insert name e } }

end Stack

def stack : Machine Stack where
  push := Stack.push
  pop? := Stack.pop?
  add? := Stack.add?
  view t := ⟨fun name => t.frames.findSome? fun f => f.locals.lookup name,
    fun name => t.top.locals.lookup name, t.top.inLoop, t.top.function, t.top.cls,
    t.below.length + 1⟩

end PeakLang.Scopes

namespace PeakLang.Scope

open Scopes (Frame)

def frame (s : Scope) : Frame where
  locals := (s.locals.map fun d => (⟨d.1, d.2⟩ : (_ : Text) × Entity)).toFinmap
  inLoop := s.inLoop
  function := s.function
  cls := s.cls

theorem dlookup_locals (locals : List (Text × Entity)) (name : Text) :
    (locals.map fun d => (⟨d.1, d.2⟩ : (_ : Text) × Entity)).dlookup name = locals.lookup name := by
  induction locals with
  | nil => rfl
  | cons d rest ih =>
    obtain ⟨n, e⟩ := d
    rw [List.map_cons]
    by_cases h : name = n
    · subst h
      rw [List.dlookup_cons_eq, List.lookup_cons_self]
    · rw [List.dlookup_cons_ne (β := fun _ => Entity) _ ⟨n, e⟩ h, ih, List.lookup_cons,
        beq_false_of_ne h]

@[simp] theorem lookup_frame (s : Scope) (name : Text) :
    s.frame.locals.lookup name = s.find? name := by
  rw [frame, Finmap.dlookup_list_toFinmap, dlookup_locals, find?]

theorem frame_root : Scope.root.frame = .builtin := by
  simp only [frame, root, Frame.builtin, List.map_map]
  rfl

theorem frame_inside (s : Scope) (parent : Nat) (o : Overrides) :
    (s.inside parent o).frame = s.frame.inside o := by
  obtain ⟨inLoop, function, cls, resetClass⟩ := o
  cases inLoop <;> cases function <;> cases cls <;> cases resetClass <;> rfl

theorem lookup_filter_ne {n name : Text} (h : n ≠ name) (locals : List (Text × Entity)) :
    (locals.filter fun d => d.1 != name).lookup n = locals.lookup n := by
  induction locals with
  | nil => rfl
  | cons d rest ih =>
    by_cases hd : d.1 = name
    · have hne : (n == d.1) = false := beq_false_of_ne (hd ▸ h)
      rw [List.filter_cons_of_neg (by simp [hd]), List.lookup_cons, hne, ih]
    · rw [List.filter_cons_of_pos (by simp [hd]), List.lookup_cons, List.lookup_cons, ih]

/-- A scope that declares one name more, as a frame. -/
theorem frame_bind (s : Scope) (name : Text) (e : Entity) :
    { s with locals := (name, e) :: s.locals.filter fun d => d.1 != name }.frame =
      { s.frame with locals := s.frame.locals.insert name e } := by
  rw [frame, Frame.mk.injEq]
  refine ⟨Finmap.ext_lookup fun n => ?_, rfl, rfl, rfl⟩
  rw [Finmap.dlookup_list_toFinmap, dlookup_locals]
  by_cases h : n = name
  · subst h
    rw [Finmap.lookup_insert, List.lookup_cons_self]
  · rw [Finmap.lookup_insert_of_ne _ h, lookup_frame, find?, List.lookup_cons, beq_false_of_ne h]
    exact lookup_filter_ne h s.locals

end PeakLang.Scope

namespace PeakLang.Scopes

variable {s s' : Scopes} {t : Stack} {name : Text} {e : Entity}

/-- Scopes in order: each but the first lies in one that was opened before it, the first holds what is
built in, and the current one is not the first. -/
structure Ordered (s : Scopes) : Prop where
  linked : s.Linked
  positive : 0 < s.current
  root : s.get 0 = .root
  parent : ∀ i < s.all.size, 0 < i → ∃ p, (s.get i).parent = some p

theorem chain_eq_cons (s : Scopes) (hsize : 0 < s.all.size) :
    s.chain = s.top :: match s.top.parent with
      | some parent => s.outward (s.all.size - 1) parent
      | none => [] := by
  obtain ⟨n, hn⟩ := Nat.exists_eq_succ_of_ne_zero (Nat.ne_of_gt hsize)
  rw [chain, hn, outward, Nat.succ_sub_one]
  rfl

namespace Ordered

theorem size_pos (hs : s.Ordered) : 0 < s.all.size := Nat.lt_of_le_of_lt (Nat.zero_le _) hs.linked.current

/-- The current scope lies in another one, which was opened before it. -/
theorem exists_parent (hs : s.Ordered) : ∃ p, s.top.parent = some p ∧ p < s.current := by
  obtain ⟨p, hp⟩ := hs.parent s.current hs.linked.current hs.positive
  exact ⟨p, hp, hs.linked.parent s.current p hp⟩

/-- The scopes in force are the current one and those that are in force around it. -/
theorem chain_eq (hs : s.Ordered) {p : Nat} (hp : s.top.parent = some p) :
    s.chain = s.top :: Scopes.chain { s with current := p } := by
  have hlt : p < s.current := hs.linked.parent s.current p hp
  have hcurrent := hs.linked.current
  have hinner : p < s.all.size - 1 := by omega
  have houter : Scopes.chain { s with current := p } = s.outward (s.all.size - 1) p :=
    hs.linked.outward_congr (fun _ _ => rfl) hinner (Nat.lt_trans hlt hcurrent)
  rw [chain_eq_cons s hs.size_pos, hp, houter]

/-- What is built in lies in nothing. -/
theorem chain_root (hs : s.Ordered) : Scopes.chain { s with current := 0 } = [.root] := by
  have htop : Scopes.top { s with current := 0 } = .root := hs.root
  rw [chain_eq_cons { s with current := 0 } hs.size_pos, htop]
  rfl

theorem push (hs : s.Ordered) (o : Scope.Overrides) : (s.push o).Ordered where
  linked := hs.linked.push o
  positive := hs.size_pos
  root := (get_push_of_ne (Nat.ne_of_lt hs.size_pos)).trans hs.root
  parent i hi hpos := by
    by_cases heq : i = s.all.size
    · subst heq
      exact ⟨s.current, congrArg Scope.parent (top_push s o)⟩
    · rw [get_push_of_ne heq]
      have hsize : (s.push o).all.size = s.all.size + 1 := by simp [Scopes.push]
      exact hs.parent i (by omega) hpos

theorem bind (hs : s.Ordered) (name : Text) (e : Entity) : (s.bind name e).Ordered where
  linked := hs.linked.bind name e
  positive := hs.positive
  root := (get_bind_of_ne (Nat.ne_of_lt hs.positive)).trans hs.root
  parent i hi hpos := by
    rw [parent_bind]
    exact hs.parent i (by simpa [Scopes.bind] using hi) hpos

theorem leave (hs : s.Ordered) {p : Nat} (hp : s.top.parent = some p) (hpos : 0 < p) :
    Ordered { s with current := p } where
  linked :=
    ⟨Nat.lt_trans (hs.linked.parent s.current p hp) hs.linked.current, hs.linked.parent⟩
  positive := hpos
  root := hs.root
  parent := hs.parent

theorem start : Ordered .start where
  linked := Linked.root.push .nothing
  positive := by decide
  root := rfl
  parent i hi hpos := by
    have hsize : Scopes.start.all.size = 2 := rfl
    obtain rfl : i = 1 := by omega
    exact ⟨0, rfl⟩

/-- The current scope with another entity for a name is the only one that changes. -/
theorem chain_bind (hs : s.Ordered) (name : Text) (e : Entity) :
    (s.bind name e).chain =
      { s.top with locals := (name, e) :: s.top.locals.filter fun d => d.1 != name } ::
        s.chain.tail := by
  obtain ⟨p, hp, hlt⟩ := hs.exists_parent
  have htop := top_bind hs.linked.current name e
  have hparent : (s.bind name e).top.parent = some p := by rw [htop, hp]
  have houter : Scopes.chain { s.bind name e with current := p } =
      Scopes.chain { s with current := p } := by
    have hlinked : Linked { s with current := p } :=
      ⟨Nat.lt_trans hlt hs.linked.current, hs.linked.parent⟩
    refine hlinked.chain_congr rfl (by simp [Scopes.bind]) fun i hi => ?_
    have hi : i ≤ p := hi
    exact get_bind_of_ne (by omega)
  rw [(hs.bind name e).chain_eq hparent, hs.chain_eq hp, houter, htop, List.tail_cons]

/-- The scopes after the current one was left are those around it. -/
theorem chain_pop (hs : s.Ordered) (h : s.pop? = some s') : s'.chain = s.chain.tail := by
  unfold pop? at h
  split at h
  · rename_i p hp
    cases h
    rw [hs.chain_eq hp, List.tail_cons]
  · cases h

end Ordered

/-- Scopes and a stack go together: the scopes in force are the frames. -/
structure Refines (s : Scopes) (t : Stack) : Prop where
  ordered : s.Ordered
  frames : s.chain.map Scope.frame = t.frames

namespace Refines

theorem top (h : s.Refines t) : s.top.frame = t.top := by
  have hframes := h.frames
  rw [chain_eq_cons s h.ordered.size_pos] at hframes
  exact (List.cons.inj hframes).1

theorem tail (h : s.Refines t) : s.chain.tail.map Scope.frame = t.below ++ [.builtin] := by
  rw [List.map_tail, h.frames]
  rfl

theorem find? (h : s.Refines t) (name : Text) :
    s.find? name = t.frames.findSome? fun f => f.locals.lookup name := by
  rw [← h.frames, List.findSome?_map]
  refine congrArg (fun p => s.chain.findSome? p) (funext fun scope => ?_)
  exact (Scope.lookup_frame scope name).symm

theorem findLocal? (h : s.Refines t) (name : Text) :
    s.findLocal? name = t.top.locals.lookup name := by
  rw [← h.top, Scope.lookup_frame, Scopes.findLocal?]

/-- Related scopes look alike. -/
theorem view (h : s.Refines t) : arena.view s = stack.view t := by
  have hdepth : s.depth = t.below.length + 1 := by
    have hlength := congrArg List.length h.frames
    rw [List.length_map] at hlength
    rw [depth, hlength]
    simp [Stack.frames]
  have htop := h.top
  rw [arena, stack, View.mk.injEq]
  refine ⟨funext h.find?, funext h.findLocal?, ?_, ?_, ?_, hdepth⟩
  · exact congrArg Frame.inLoop htop
  · exact congrArg Frame.function htop
  · exact congrArg Frame.cls htop

theorem push (h : s.Refines t) (o : Scope.Overrides) : (s.push o).Refines (t.push o) where
  ordered := h.ordered.push o
  frames := by
    rw [h.ordered.linked.chain_push o, List.map_cons, Scope.frame_inside, h.top, h.frames]
    rfl

/-- Both declare a name, or both refuse it. -/
theorem add? (h : s.Refines t) (name : Text) (e : Entity) :
    (s.add? name e = none ∧ t.add? name e = none) ∨
      ∃ s' t', s.add? name e = some s' ∧ t.add? name e = some t' ∧ s'.Refines t' := by
  have hlocal : (s.findLocal? name).isSome = true ↔ name ∈ t.top.locals := by
    rw [h.findLocal?, Finmap.lookup_isSome]
  rw [Scopes.add?, Stack.add?]
  by_cases hin : name ∈ t.top.locals
  · rw [if_pos hin, if_pos (hlocal.mpr hin)]
    exact .inl ⟨rfl, rfl⟩
  · rw [if_neg hin, if_neg fun hfound => hin (hlocal.mp hfound)]
    refine .inr ⟨_, _, rfl, rfl, h.ordered.bind name e, ?_⟩
    rw [h.ordered.chain_bind name e, List.map_cons, Scope.frame_bind, h.top, h.tail]
    rfl

/-- Both leave the current scope, or both refuse to: then it is the program's. -/
theorem pop? (h : s.Refines t) :
    (s.pop? = none ∧ t.pop? = none) ∨
      ∃ s' t', s.pop? = some s' ∧ t.pop? = some t' ∧ s'.Refines t' := by
  obtain ⟨p, hp, -⟩ := h.ordered.exists_parent
  have htail := h.tail
  rw [h.ordered.chain_eq hp, List.tail_cons] at htail
  rw [Scopes.pop?, Stack.pop?, hp]
  cases p with
  | zero =>
    rw [h.ordered.chain_root, List.map_singleton, Scope.frame_root] at htail
    have hbelow : t.below = [] := List.append_left_eq_self.mp htail.symm
    rw [hbelow]
    exact .inl ⟨rfl, rfl⟩
  | succ p =>
    have hordered := h.ordered.leave hp (Nat.succ_pos p)
    -- A scope that is not the first lies in another one, so there are two frames at least.
    obtain ⟨q, hq, -⟩ := hordered.exists_parent
    cases hbelow : t.below with
    | nil =>
      rw [hbelow, hordered.chain_eq hq, chain_eq_cons ⟨s.all, q⟩ hordered.size_pos] at htail
      simp at htail
    | cons f rest =>
      rw [hbelow] at htail
      exact .inr ⟨_, _, rfl, rfl, hordered, htail⟩

theorem start : Scopes.start.Refines .start where
  ordered := .start
  frames := by
    have hchain : Scopes.start.chain = [Scope.root.inside 0 .nothing, .root] := rfl
    rw [hchain, List.map_cons, List.map_singleton, Scope.frame_inside, Scope.frame_root]
    rfl

/-- One operation does to the scopes in force what it does to the frames. -/
theorem step (h : s.Refines t) (op : Op) :
    (arena.step s op).1 = (stack.step t op).1 ∧ (arena.step s op).2.Refines (stack.step t op).2 := by
  cases op with
  | push o => exact ⟨rfl, h.push o⟩
  | pop =>
    simp only [Machine.step, arena, stack]
    rcases h.pop? with ⟨hs, ht⟩ | ⟨s', t', hs, ht, hrefines⟩
    · rw [hs, ht]
      exact ⟨rfl, h⟩
    · rw [hs, ht]
      exact ⟨rfl, hrefines⟩
  | add name e =>
    simp only [Machine.step, arena, stack]
    rcases h.add? name e with ⟨hs, ht⟩ | ⟨s', t', hs, ht, hrefines⟩
    · rw [hs, ht]
      exact ⟨rfl, h⟩
    · rw [hs, ht]
      exact ⟨rfl, hrefines⟩
  | find name => exact ⟨congrArg Answer.found (h.find? name), h⟩
  | findLocal name => exact ⟨congrArg Answer.found (h.findLocal? name), h⟩

end Refines

/-- The scopes as they are kept go together with a stack. -/
theorem arena_simulates_stack : arena.Simulates stack Refines :=
  ⟨fun h => h.view, fun h => h.step⟩

namespace Stack

/-- The frames but for what is built in. -/
def own (t : Stack) : List Frame := t.top :: t.below

/-- An operation that leaves some frame over others leaves those as they are. -/
theorem step_own {base inner : List Frame} {op : Op} (hne : inner ≠ [])
    (hown : t.own = inner ++ base)
    (hdepth : base.length < (stack.view (stack.step t op).2).depth) :
    ∃ inner', inner' ≠ [] ∧ (stack.step t op).2.own = inner' ++ base := by
  obtain ⟨f, rest, rfl⟩ := List.exists_cons_of_ne_nil hne
  obtain ⟨htop, hbelow⟩ := List.cons.inj hown
  cases op with
  | push o =>
    exact ⟨t.top.inside o :: f :: rest, List.cons_ne_nil _ _, congrArg (t.top.inside o :: ·) hown⟩
  | pop =>
    cases hcase : t.below with
    | nil =>
      have hstep : stack.step t .pop = (.refused popMessage, t) := by
        simp only [Machine.step, stack, Stack.pop?, hcase]
      rw [hstep]
      exact ⟨_, hne, hown⟩
    | cons g below =>
      have hstep : stack.step t .pop = (.done, ⟨g, below⟩) := by
        simp only [Machine.step, stack, Stack.pop?, hcase]
      rw [hstep] at hdepth ⊢
      refine ⟨rest, ?_, ?_⟩
      · -- With no frame left over the others, there would be no more frames than those.
        rintro rfl
        rw [hcase] at hbelow
        have hlength := congrArg List.length hbelow
        have hdepth : base.length < below.length + 1 := hdepth
        simp at hlength
        omega
      · exact hcase.symm.trans hbelow
  | add name e =>
    by_cases hin : name ∈ t.top.locals
    · have hstep : stack.step t (.add name e) = (.refused (duplicateMessage name), t) := by
        simp only [Machine.step, stack, Stack.add?, if_pos hin]
      rw [hstep]
      exact ⟨_, hne, hown⟩
    · have hstep : (stack.step t (.add name e)).2.below = t.below := by
        simp only [Machine.step, stack, Stack.add?, if_neg hin]
      refine ⟨(stack.step t (.add name e)).2.top :: rest, List.cons_ne_nil _ _, ?_⟩
      rw [own, hstep, hbelow]
      rfl
  | find name | findLocal name => exact ⟨_, hne, hown⟩

/-- Work that always leaves some frame over others leaves those as they are. -/
theorem run_own {base inner : List Frame} {ops : List Op} (hne : inner ≠ [])
    (hown : t.own = inner ++ base) (hdepth : ∀ r ∈ (stack.run t ops).1, base.length < r.2.depth) :
    ∃ inner', inner' ≠ [] ∧ (stack.run t ops).2.own = inner' ++ base := by
  induction ops generalizing t inner with
  | nil => exact ⟨inner, hne, hown⟩
  | cons op ops ih =>
    rw [Machine.run, List.forall_mem_cons] at hdepth
    obtain ⟨inner', hne', hown'⟩ := step_own hne hown hdepth.1
    exact ih hne' hown' hdepth.2

end Stack

/-- What operations on scopes may do. What is built in is as it was. What is refused changes nothing:
these are declaring a name again in the current scope, and leaving the scope of the program. Leaving a
scope brings back the scopes around it, and these look as they did when the scope was opened, whatever
was done inside it. -/
structure Orderly (s : Scopes) : Prop where
  root : s.get 0 = .root
  refused : ∀ op message, (arena.step s op).1 = .refused message → (arena.step s op).2 = s
  refused_add_iff : ∀ name e, (arena.step s (.add name e)).1 = .refused (duplicateMessage name) ↔
    (s.findLocal? name).isSome
  refused_pop_iff : (arena.step s .pop).1 = .refused popMessage ↔ s.depth = 1
  popped : ∀ s', s.pop? = some s' → s'.chain = s.chain.tail
  restored : ∀ o ops, (∀ r ∈ (arena.run (s.push o) ops).1, s.depth < r.2.depth) →
    (arena.run (s.push o) ops).2.depth = s.depth + 1 →
    ∃ s', (arena.run (s.push o) ops).2.pop? = some s' ∧ arena.view s' = arena.view s

theorem Refines.depth (h : s.Refines t) : s.depth = t.own.length :=
  congrArg View.depth h.view

/-- Leaving a scope undoes all that was done since it was opened. -/
theorem Refines.restored (h : s.Refines t) {o : Scope.Overrides} {ops : List Op}
    (hdepth : ∀ r ∈ (arena.run (s.push o) ops).1, s.depth < r.2.depth)
    (hlast : (arena.run (s.push o) ops).2.depth = s.depth + 1) :
    ∃ s', (arena.run (s.push o) ops).2.pop? = some s' ∧ arena.view s' = arena.view s := by
  obtain ⟨htrace, hrefines⟩ := arena_simulates_stack.run (h.push o) ops
  rw [htrace, h.depth] at hdepth
  rw [hrefines.depth, h.depth] at hlast
  obtain ⟨inner, hne, hown⟩ := Stack.run_own (List.cons_ne_nil (t.top.inside o) []) rfl hdepth
  have hinner : inner.length = 1 := by
    have hlength := congrArg List.length hown
    rw [List.length_append] at hlength
    omega
  obtain ⟨f, rfl⟩ := List.length_eq_one_iff.mp hinner
  have hbelow : (stack.run (t.push o) ops).2.below = t.top :: t.below := (List.cons.inj hown).2
  have hpop : (stack.run (t.push o) ops).2.pop? = some t := by
    rw [Stack.pop?, hbelow]
  rcases hrefines.pop? with ⟨-, ht⟩ | ⟨s', t', hs', ht', hback⟩
  · rw [hpop] at ht
    cases ht
  · rw [hpop] at ht'
    cases ht'
    exact ⟨s', hs', hback.view.trans h.view.symm⟩

theorem Refines.orderly (h : s.Refines t) : s.Orderly where
  root := h.ordered.root
  refused _ _ := Machine.step_refused
  refused_add_iff name e := by
    by_cases hlocal : (s.findLocal? name).isSome
    · simp [Machine.step, arena, Scopes.add?, hlocal]
    · simp [Machine.step, arena, Scopes.add?, hlocal]
  refused_pop_iff := by
    have hpop : (arena.step s .pop).1 = .refused popMessage ↔ t.below = [] := by
      rw [(h.step .pop).1]
      cases hbelow : t.below <;> simp [Machine.step, stack, Stack.pop?, hbelow]
    rw [hpop, h.depth, Stack.own, List.length_cons, Nat.add_eq_right, List.length_eq_zero_iff]
  popped _ := h.ordered.chain_pop
  restored _ _ := h.restored

/-- Whatever is done with scopes shows as it would on a stack of frames, and the operations do no more
than they may. -/
theorem run_start_eq_stack (ops : List Op) :
    (arena.run .start ops).1 = (stack.run .start ops).1 ∧
      arena.view (arena.run .start ops).2 = stack.view (stack.run .start ops).2 ∧
      (arena.run .start ops).2.Orderly := by
  obtain ⟨htrace, hrefines⟩ := arena_simulates_stack.run .start ops
  exact ⟨htrace, hrefines.view, hrefines.orderly⟩

end PeakLang.Scopes
