import PeakLang.Proofs.Scope.Chain

namespace PeakLang.Scopes

variable {s s' s'' : Scopes} {name : Text} {e : Entity} {o : Scope.Overrides} {names names' : List Text}

/-- A scope that does not declare a name has nothing to forget about it. -/
theorem filter_locals_of_find?_eq_none {scope : Scope} (h : scope.find? name = none) :
    (scope.locals.filter fun d => d.1 != name) = scope.locals := by
  rw [List.filter_eq_self]
  intro d hd
  have hne := List.lookup_eq_none_iff.mp h d hd
  rw [bne_iff_ne] at hne ⊢
  exact hne.symm

/-- The scopes after some work that may declare some names, in order: the same scope is current, the
scopes around it are unchanged, and names that are new in it were added to it, some of those that may
be declared, the latest first. -/
structure Balanced (names : List Text) (s s' : Scopes) : Prop where
  keeps : s.Keeps s'
  linked : s'.Linked
  added : ∃ added, s'.top.locals = added ++ s.top.locals ∧
    (added.map Prod.fst).reverse.Sublist names ∧ ∀ d ∈ added, s.findLocal? d.1 = none

namespace Balanced

theorem refl (hs : s.Linked) (names : List Text) : Balanced names s s :=
  ⟨.refl s, hs, [], rfl, List.nil_sublist _, nofun⟩

theorem trans (h : Balanced names s s') (h' : Balanced names' s' s'') :
    Balanced (names ++ names') s s'' := by
  obtain ⟨added, hlocals, hnames, hnew⟩ := h.added
  obtain ⟨added', hlocals', hnames', hnew'⟩ := h'.added
  refine ⟨h.keeps.trans h'.keeps, h'.linked, added' ++ added, ?_, ?_, ?_⟩
  · rw [hlocals', hlocals, List.append_assoc]
  · rw [List.map_append, List.reverse_append]
    exact hnames.append hnames'
  · refine List.forall_mem_append.mpr ⟨fun d hd => ?_, hnew⟩
    have hfind : s'.top.locals.lookup d.1 = none := hnew' d hd
    rw [hlocals, List.lookup_append, Option.or_eq_none_iff] at hfind
    exact hfind.2

theorem mono (h : Balanced names s s') (hsub : names.Sublist names') : Balanced names' s s' := by
  obtain ⟨added, hlocals, hnames, hnew⟩ := h.added
  exact ⟨h.keeps, h.linked, added, hlocals, hnames.trans hsub, hnew⟩

theorem bind (hs : s.Linked) (hnew : s.findLocal? name = none) (e : Entity) :
    Balanced [name] s (s.bind name e) := by
  refine ⟨.bind s name e, hs.bind name e, [(name, e)], ?_, List.Sublist.refl _, ?_⟩
  · rw [top_bind hs.current, filter_locals_of_find?_eq_none hnew]
    rfl
  · exact List.forall_mem_singleton.mpr hnew

/-- Whatever was done inside a scope, nothing shows after it was left. -/
theorem within (hs : s.Linked) (h : Balanced names (s.push o) s') :
    Balanced [] s { s' with current := s.current } := by
  refine ⟨h.keeps.within, hs.within h.keeps h.linked, [], ?_, List.Sublist.refl _, nofun⟩
  exact congrArg Scope.locals (h.keeps.get_within hs.current)

theorem current (h : Balanced names s s') : s'.current = s.current := h.keeps.grows.current

theorem top_eq (h : Balanced names s s') (hs : s.Linked) :
    s'.top = { s.top with locals := s'.top.locals } := by
  have hbare := h.keeps.grows.bare_top hs.current
  rw [Scope.bare, Scope.bare, Scope.mk.injEq] at hbare
  obtain ⟨hparent, -, hloop, hfunction, hcls⟩ := hbare
  rw [Scope.mk.injEq]
  exact ⟨hparent, rfl, hloop, hfunction, hcls⟩

/-- Of the scopes in force, only the names that the current one declares may differ. -/
theorem chain_eq (h : Balanced names s s') (hs : s.Linked) :
    s'.chain = { s.top with locals := s'.top.locals } :: s.chain.tail := by
  have hopen := hs.current
  have hopen' := h.linked.current
  obtain ⟨n, hn⟩ := Nat.exists_eq_succ_of_ne_zero (Nat.ne_zero_of_lt hopen)
  obtain ⟨n', hn'⟩ := Nat.exists_eq_succ_of_ne_zero (Nat.ne_zero_of_lt hopen')
  have hsize := h.keeps.grows.size
  have htop : s'.get s'.current = { s.top with locals := s'.top.locals } := h.top_eq hs
  rw [chain, hn', Nat.succ_eq_add_one, outward, htop, chain, hn, Nat.succ_eq_add_one, outward,
    List.tail_cons]
  congr 1
  rw [show s.get s.current = s.top from rfl]
  cases hparent : s.top.parent with
  | none => rfl
  | some p =>
    have hp : p < s.current := hs.parent s.current p hparent
    have houter : s'.outward n' p = s.outward n p := by
      refine hs.outward_congr (fun i hi => ?_) (by omega) (by rw [h.current] at hopen'; omega)
      exact h.keeps.others i (by omega) (by omega)
    simp only [houter]

end Balanced

end PeakLang.Scopes
