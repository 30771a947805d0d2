import PeakLang.Proofs.Scope

namespace PeakLang.Scopes

variable {P Q : Entity → Prop} {s s' s'' : Scopes} {name : Text} {e : Entity} {o : Scope.Overrides}

/-- Every scope lies in one that was opened before it, and the current one is open. -/
structure Linked (s : Scopes) : Prop where
  current : s.current < s.all.size
  parent : ∀ i p, (s.get i).parent = some p → p < i

theorem Linked.root : Linked ⟨#[.root], 0⟩ := by
  refine ⟨by decide, fun i p h => ?_⟩
  have hroot : get ⟨#[.root], 0⟩ i = .root := by cases i <;> simp [get]
  rw [hroot] at h
  cases h

/-- Scopes that agree up to an index have the same scopes from there outwards, whatever the limits. -/
theorem Linked.outward_congr (hs : s.Linked) {limit limit' index : Nat}
    (hagree : ∀ i ≤ index, s'.get i = s.get i) (hlimit : index < limit) (hlimit' : index < limit') :
    s'.outward limit' index = s.outward limit index := by
  induction limit generalizing limit' index with
  | zero => omega
  | succ limit ih =>
    obtain ⟨limit', rfl⟩ := Nat.exists_eq_succ_of_ne_zero (Nat.ne_zero_of_lt hlimit')
    rw [outward, outward, hagree index (Nat.le_refl _)]
    cases hparent : (s.get index).parent with
    | none => rfl
    | some p =>
      have hp : p < index := hs.parent index p hparent
      have houter := ih (fun i hi => hagree i (by omega)) (show p < limit by omega)
        (show p < limit' by omega)
      simp only [houter]

theorem Linked.chain_congr (hs : s.Linked) (hcurrent : s'.current = s.current)
    (hsize : s.all.size ≤ s'.all.size) (hagree : ∀ i ≤ s.current, s'.get i = s.get i) :
    s'.chain = s.chain := by
  rw [chain, chain, hcurrent]
  exact hs.outward_congr hagree hs.current (Nat.lt_of_lt_of_le hs.current hsize)

theorem Linked.push (hs : s.Linked) (o : Scope.Overrides) : (s.push o).Linked where
  current := by simp [Scopes.push]
  parent i p h := by
    by_cases hi : i = s.all.size
    · subst hi
      rw [show (s.push o).get s.all.size = s.top.inside s.current o from top_push s o] at h
      cases h
      exact hs.current
    · rw [get_push_of_ne hi] at h
      exact hs.parent i p h

/-- The scopes in force after opening one are the new one and those before. -/
theorem Linked.chain_push (hs : s.Linked) (o : Scope.Overrides) :
    (s.push o).chain = s.top.inside s.current o :: s.chain := by
  have hsize : (s.push o).all.size = s.all.size + 1 := by simp [Scopes.push]
  have hnew : (s.push o).get (s.push o).current = s.top.inside s.current o := top_push s o
  have houter : (s.push o).outward s.all.size s.current = s.chain := by
    refine hs.outward_congr (fun i hi => get_push_of_ne ?_) hs.current hs.current
    have hcurrent := hs.current
    omega
  rw [chain, hsize, outward, hnew]
  simp only [Scope.inside, houter]

theorem parent_bind (s : Scopes) (name : Text) (e : Entity) (i : Nat) :
    ((s.bind name e).get i).parent = (s.get i).parent := by
  rcases get_bind s name e i with heq | heq <;> rw [heq]

theorem get_bind_of_ne {i : Nat} (h : i ≠ s.current) : (s.bind name e).get i = s.get i := by
  simp [get, bind, Array.getElem?_modify, Ne.symm h]

theorem Linked.bind (hs : s.Linked) (name : Text) (e : Entity) : (s.bind name e).Linked where
  current := by simpa [Scopes.bind] using hs.current
  parent i p h := hs.parent i p (by rwa [parent_bind] at h)

/-- Every name in force stands for an entity with a property. -/
def Visible (P : Entity → Prop) (s : Scopes) : Prop := ∀ scope ∈ s.chain, ∀ d ∈ scope.locals, P d.2

theorem Visible.imp (h : s.Visible P) (himp : ∀ e, P e → Q e) : s.Visible Q :=
  fun scope hscope d hd => himp d.2 (h scope hscope d hd)

theorem Visible.find? (h : s.Visible P) (hfind : s.find? name = some e) : P e := by
  obtain ⟨scope, hscope, hlocal⟩ := List.exists_of_findSome?_eq_some hfind
  exact h scope hscope _ (Scope.mem_locals_of_find? hlocal)

/-- What holds of everything declared holds of everything in force. -/
theorem Holds.visible (h : s.Holds P) : s.Visible P := by
  intro scope hscope
  obtain ⟨i, rfl⟩ := exists_get_of_mem_outward hscope
  exact h i

theorem Visible.push (hs : s.Linked) (h : s.Visible P) (o : Scope.Overrides) :
    (s.push o).Visible P := by
  rw [Visible, hs.chain_push o]
  refine List.forall_mem_cons.mpr ⟨fun d hd => ?_, h⟩
  cases hd

/-- A scope that declares one name more declares nothing else that it did not declare. -/
theorem mem_outward_bind {limit index : Nat} {scope : Scope} {d : Text × Entity}
    (hscope : scope ∈ (s.bind name e).outward limit index) (hd : d ∈ scope.locals) :
    d.2 = e ∨ ∃ scope' ∈ s.outward limit index, d ∈ scope'.locals := by
  induction limit generalizing index with
  | zero => cases hscope
  | succ limit ih =>
    rw [outward, parent_bind, List.mem_cons] at hscope
    rw [outward]
    rcases hscope with rfl | hscope
    · rcases get_bind s name e index with heq | heq
      · rw [heq] at hd
        exact .inr ⟨_, List.mem_cons_self, hd⟩
      · rw [heq, List.mem_cons] at hd
        rcases hd with rfl | hd
        · exact .inl rfl
        · exact .inr ⟨_, List.mem_cons_self, (List.mem_filter.mp hd).1⟩
    · cases hparent : (s.get index).parent with
      | none => simp [hparent] at hscope
      | some p =>
        simp only [hparent] at hscope
        refine (ih hscope).imp_right ?_
        rintro ⟨scope', hscope', hd'⟩
        exact ⟨scope', List.mem_cons_of_mem _ hscope', hd'⟩

theorem Visible.bind (h : s.Visible P) (he : P e) : (s.bind name e).Visible P := by
  intro scope hscope d hd
  have hsize : (s.bind name e).all.size = s.all.size := by simp [Scopes.bind]
  rw [chain, hsize] at hscope
  rcases mem_outward_bind hscope hd with heq | ⟨scope', hscope', hd'⟩
  · exact heq ▸ he
  · exact h scope' hscope' d hd'

/-- Scopes that came from others, and differ from them in the current scope and in those opened since
alone. -/
structure Keeps (s s' : Scopes) : Prop where
  grows : s.Grows s'
  others : ∀ i < s.all.size, i ≠ s.current → s'.get i = s.get i

theorem Keeps.refl (s : Scopes) : s.Keeps s := ⟨.refl s, fun _ _ _ => rfl⟩

theorem Keeps.trans (h : s.Keeps s') (h' : s'.Keeps s'') : s.Keeps s'' where
  grows := h.grows.trans h'.grows
  others i hi hne := by
    rw [h'.others i (Nat.lt_of_lt_of_le hi h.grows.size) (h.grows.current ▸ hne)]
    exact h.others i hi hne

theorem Keeps.bind (s : Scopes) (name : Text) (e : Entity) : s.Keeps (s.bind name e) :=
  ⟨.bind s name e, fun _ _ hne => get_bind_of_ne hne⟩

/-- Work inside a new scope leaves every scope that was there as it is. -/
theorem Keeps.get_within (h : (s.push o).Keeps s') {i : Nat} (hi : i < s.all.size) :
    s'.get i = s.get i := by
  have hlt : i < (s.push o).all.size := by
    simp only [push, Array.size_push]
    omega
  rw [h.others i hlt (Nat.ne_of_lt hi), get_push_of_ne (Nat.ne_of_lt hi)]

theorem Keeps.within (h : (s.push o).Keeps s') : s.Keeps { s' with current := s.current } :=
  ⟨h.grows.within, fun _ hi _ => h.get_within hi⟩

/-- Leaving a scope brings back the scopes that were in force before it was opened. -/
theorem Keeps.chain_within (hs : s.Linked) (h : (s.push o).Keeps s') :
    Scopes.chain { s' with current := s.current } = s.chain := by
  refine hs.chain_congr rfl h.grows.within.size fun i hi => ?_
  exact h.get_within (Nat.lt_of_le_of_lt hi hs.current)

theorem Linked.within (hs : s.Linked) (h : (s.push o).Keeps s') (hs' : s'.Linked) :
    Linked { s' with current := s.current } :=
  ⟨Nat.lt_of_lt_of_le hs.current h.grows.within.size, hs'.parent⟩

end PeakLang.Scopes
