import PeakLang.Scope

namespace PeakLang

namespace Scope

/-- A scope without the names it declares. -/
def bare (s : Scope) : Scope := { s with locals := [] }

theorem mem_locals_of_find? {s : Scope} {name : Text} {e : Entity} (h : s.find? name = some e) :
    (name, e) ∈ s.locals := by
  obtain ⟨l₁, l₂, heq, -⟩ := List.lookup_eq_some_iff.mp h
  simp [heq]

end Scope

namespace Scopes

variable {P : Entity → Prop} {Q : Text → Entity → Prop} {s s' s'' : Scopes} {name : Text} {e : Entity}

/-- Every declared name stands for an entity that goes with it. -/
def HoldsAt (Q : Text → Entity → Prop) (s : Scopes) : Prop := ∀ i, ∀ d ∈ (s.get i).locals, Q d.1 d.2

/-- Every declared name stands for an entity with a property. -/
def Holds (P : Entity → Prop) (s : Scopes) : Prop := ∀ i, ∀ d ∈ (s.get i).locals, P d.2

/-- Every declared name stands for an entity that was declared by it. -/
def Keyed (s : Scopes) : Prop := s.HoldsAt fun name e => e.name = name

theorem Holds.imp {P' : Entity → Prop} (h : s.Holds P) (himp : ∀ e, P e → P' e) : s.Holds P' :=
  fun i d hd => himp d.2 (h i d hd)

theorem exists_get_of_mem_outward {scope : Scope} {limit index : Nat}
    (h : scope ∈ s.outward limit index) : ∃ i, scope = s.get i := by
  induction limit generalizing index with
  | zero => cases h
  | succ limit ih =>
    rw [outward, List.mem_cons] at h
    rcases h with rfl | h
    · exact ⟨index, rfl⟩
    · split at h
      · exact ih h
      · cases h

/-- A name that is in force stands for an entity that goes with it. -/
theorem HoldsAt.find? (h : s.HoldsAt Q) (hfind : s.find? name = some e) : Q name e := by
  obtain ⟨scope, hscope, hlocal⟩ := List.exists_of_findSome?_eq_some hfind
  obtain ⟨i, rfl⟩ := exists_get_of_mem_outward hscope
  exact h i _ (Scope.mem_locals_of_find? hlocal)

/-- A name that is in force stands for an entity with the property. -/
theorem Holds.find? (h : s.Holds P) (hfind : s.find? name = some e) : P e :=
  HoldsAt.find? (Q := fun _ => P) h hfind

theorem get_bind (s : Scopes) (name : Text) (e : Entity) (i : Nat) :
    (s.bind name e).get i = s.get i ∨
      (s.bind name e).get i =
        { s.get i with locals := (name, e) :: (s.get i).locals.filter fun d => d.1 != name } := by
  simp only [get, bind, Array.getElem?_modify]
  split
  · cases s.all[i]? with
    | none => exact .inl rfl
    | some scope => exact .inr rfl
  · exact .inl rfl

theorem top_bind (h : s.current < s.all.size) (name : Text) (e : Entity) :
    (s.bind name e).top =
      { s.top with locals := (name, e) :: s.top.locals.filter fun d => d.1 != name } := by
  simp [top, get, bind, Array.getElem?_modify, Array.getElem?_eq_getElem h]

theorem HoldsAt.bind (h : s.HoldsAt Q) (he : Q name e) : (s.bind name e).HoldsAt Q := by
  intro i d hd
  rcases get_bind s name e i with heq | heq
  · rw [heq] at hd
    exact h i d hd
  · rw [heq, List.mem_cons] at hd
    rcases hd with rfl | hd
    · exact he
    · exact h i d (List.mem_filter.mp hd).1

theorem Holds.bind (h : s.Holds P) (he : P e) : (s.bind name e).Holds P :=
  HoldsAt.bind (Q := fun _ => P) h he

/-- Only the entity that a name was bound to last counts. -/
theorem bind_bind (s : Scopes) (name : Text) (e e' : Entity) :
    (s.bind name e).bind name e' = s.bind name e' := by
  simp only [bind, mk.injEq, and_true]
  apply Array.ext_getElem?
  intro i
  simp only [Array.getElem?_modify]
  split
  · cases s.all[i]? with
    | none => rfl
    | some scope => simp [List.filter_filter]
  · rfl

theorem get_push_of_ne {o : Scope.Overrides} {i : Nat} (h : i ≠ s.all.size) :
    (s.push o).get i = s.get i := by
  simp [get, push, Array.getElem?_push, h]

theorem top_push (s : Scopes) (o : Scope.Overrides) :
    (s.push o).top = s.top.inside s.current o := by
  simp [top, get, push]

theorem HoldsAt.push (h : s.HoldsAt Q) (o : Scope.Overrides) : (s.push o).HoldsAt Q := by
  intro i d hd
  by_cases heq : i = s.all.size
  · have hnew : (s.push o).get i = s.top.inside s.current o := heq ▸ top_push s o
    rw [hnew] at hd
    cases hd
  · rw [get_push_of_ne heq] at hd
    exact h i d hd

theorem Holds.push (h : s.Holds P) (o : Scope.Overrides) : (s.push o).Holds P :=
  HoldsAt.push (Q := fun _ => P) h o

theorem HoldsAt.pop (h : s.HoldsAt Q) : (s.pop?.getD s).HoldsAt Q := by
  unfold pop?
  split <;> exact h

/-- Scopes that came from others by declaring names and by opening and leaving scopes: the current
scope is the same, and every scope still lies in what it lay in. -/
structure Grows (s s' : Scopes) : Prop where
  current : s'.current = s.current
  size : s.all.size ≤ s'.all.size
  bare : ∀ i < s.all.size, (s'.get i).bare = (s.get i).bare

theorem Grows.refl (s : Scopes) : s.Grows s := ⟨rfl, Nat.le_refl _, fun _ _ => rfl⟩

theorem Grows.trans (h : s.Grows s') (h' : s'.Grows s'') : s.Grows s'' where
  current := h'.current.trans h.current
  size := Nat.le_trans h.size h'.size
  bare i hi := (h'.bare i (Nat.lt_of_lt_of_le hi h.size)).trans (h.bare i hi)

theorem Grows.bind (s : Scopes) (name : Text) (e : Entity) : s.Grows (s.bind name e) where
  current := rfl
  size := by simp [Scopes.bind]
  bare i _ := by
    rcases get_bind s name e i with heq | heq
    · rw [heq]
    · rw [heq]
      rfl

theorem Grows.bare_top (h : s.Grows s') (hcurrent : s.current < s.all.size) :
    s'.top.bare = s.top.bare := by
  rw [top, h.current]
  exact h.bare _ hcurrent

theorem Grows.function (h : s.Grows s') (hcurrent : s.current < s.all.size) :
    s'.function = s.function := by
  change s'.top.bare.function = s.top.bare.function
  rw [h.bare_top hcurrent]

/-- A scope that was opened is left again, wherever the work inside it went. -/
theorem Grows.pop? {o : Scope.Overrides} (h : (s.push o).Grows s') (hpositive : 0 < s.current) :
    s'.pop? = some { s' with current := s.current } := by
  have hlt : (s.push o).current < (s.push o).all.size := by simp [push]
  have hparent : s'.top.parent = some s.current := by
    change s'.top.bare.parent = _
    rw [h.bare_top hlt, top_push]
    rfl
  obtain ⟨n, hn⟩ := Nat.exists_eq_succ_of_ne_zero (Nat.ne_of_gt hpositive)
  rw [Scopes.pop?, hparent, hn]

theorem Grows.within {o : Scope.Overrides} (h : (s.push o).Grows s') :
    s.Grows { s' with current := s.current } where
  current := rfl
  size := by
    have hsize : s.all.size ≤ (s.push o).all.size := by simp [push]
    exact Nat.le_trans hsize h.size
  bare i hi := by
    have hlt : i < (s.push o).all.size := by
      simp only [push, Array.size_push]
      omega
    rw [← get_push_of_ne (Nat.ne_of_lt hi)]
    exact h.bare i hlt

end Scopes

end PeakLang
