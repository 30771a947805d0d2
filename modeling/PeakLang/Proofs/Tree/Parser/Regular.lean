import PeakLang.Proofs.Tree.Moved
import PeakLang.Proofs.Tree.Parser.Run

namespace PeakLang.Tree.Parser

variable {f : Pos → Pos}

namespace State

def moved (f : Pos → Pos) (s : State) : State where
  ahead := s.ahead.map (Token.moved f)
  last := s.last.moved f
  faults := s.faults.map fun x => (x.1, f x.2)

@[simp]
theorem current_moved (s : State) : (s.moved f).current = s.current.moved f := by
  cases s with
  | mk ahead last faults => cases ahead <;> rfl

@[simp]
theorem length_ahead_moved (s : State) : (s.moved f).ahead.length = s.ahead.length :=
  List.length_map ..

/-- The position of a token, counted from the one at hand; the end of the source comes last. -/
def posAt? (s : State) (i : Nat) : Option Pos := (s.ahead ++ [s.last])[i]?.map Token.pos

theorem posAt?_zero (s : State) : s.posAt? 0 = some s.current.pos := by
  obtain ⟨ahead, last, faults⟩ := s
  cases ahead <;> rfl

theorem tail_eq_drop (s : State) : s.ahead.tail = s.ahead.drop (min 1 s.ahead.length) := by
  obtain ⟨ahead, last, faults⟩ := s
  cases ahead with
  | nil => rfl
  | cons token rest => simp

end State

/-- A state that parsing may get to from another. -/
structure Advances (s s' : State) : Prop where
  ahead : s'.ahead <:+ s.ahead
  last : s'.last = s.last
  faults : s.faults <+: s'.faults

namespace Advances

theorem refl (s : State) : Advances s s := ⟨List.suffix_refl _, rfl, List.prefix_refl _⟩

theorem trans {s s' s'' : State} (h : Advances s s') (h' : Advances s' s'') : Advances s s'' :=
  ⟨h'.ahead.trans h.ahead, h'.last.trans h.last, h.faults.trans h'.faults⟩

end Advances

/-- Some tokens are taken between two states, and faults are recorded at places on the way. The places
are counted from the token at hand before; they never go back, and none lies beyond the token at hand
after. -/
structure Records (s s' : State) (taken : Nat) (places : List Nat) : Prop where
  bound : taken ≤ s.ahead.length
  ahead : s'.ahead = s.ahead.drop taken
  last : s'.last = s.last
  faults : ∃ more, s'.faults = s.faults ++ more ∧ (more.map fun f => some f.2) = places.map s.posAt?
  order : places.Pairwise (· ≤ ·)
  reached : ∀ i ∈ places, i ≤ taken

namespace Records

variable {s s' s'' : State} {taken taken' : Nat} {places places' : List Nat}

theorem posAt? (h : Records s s' taken places) (i : Nat) : s'.posAt? i = s.posAt? (taken + i) := by
  rw [State.posAt?, State.posAt?, h.ahead, h.last, ← List.drop_append_of_le_length h.bound,
    List.getElem?_drop]

theorem trans (h : Records s s' taken places) (h' : Records s' s'' taken' places') :
    Records s s'' (taken + taken') (places ++ places'.map (taken + ·)) where
  bound := by
    have hbound := h'.bound
    rw [h.ahead, List.length_drop] at hbound
    have hfirst := h.bound
    omega
  ahead := by rw [h'.ahead, h.ahead, List.drop_drop]
  last := h'.last.trans h.last
  faults := by
    have hplaces : places'.map s'.posAt? = (places'.map (taken + ·)).map s.posAt? := by
      rw [List.map_map]
      exact List.map_congr_left fun i _ => h.posAt? i
    obtain ⟨more, hmore, hmoreAt⟩ := h.faults
    obtain ⟨more', hmore', hmoreAt'⟩ := h'.faults
    refine ⟨more ++ more', ?_, ?_⟩
    · rw [hmore', hmore, List.append_assoc]
    · rw [List.map_append, hmoreAt, hmoreAt', hplaces, List.map_append]
  order := by
    rw [List.pairwise_append, List.pairwise_map]
    refine ⟨h.order, h'.order.imp fun hle => Nat.add_le_add_left hle taken, ?_⟩
    intro i hi j hj
    obtain ⟨k, -, rfl⟩ := List.mem_map.mp hj
    exact Nat.le_add_right_of_le (h.reached i hi)
  reached := by
    intro i hi
    rcases List.mem_append.mp hi with hi | hi
    · exact Nat.le_add_right_of_le (h.reached i hi)
    · obtain ⟨k, hk, rfl⟩ := List.mem_map.mp hi
      exact Nat.add_le_add_left (h'.reached k hk) taken

/-- Taking tokens without a fault. -/
theorem of_drop (hbound : taken ≤ s.ahead.length) :
    Records s { s with ahead := s.ahead.drop taken } taken [] :=
  ⟨hbound, rfl, rfl, ⟨[], (List.append_nil _).symm, rfl⟩, .nil, nofun⟩

theorem of_suffix {ahead : List Token} (h : ahead <:+ s.ahead) :
    Records s { s with ahead } (s.ahead.length - ahead.length) [] := by
  have hdrop := of_drop (Nat.sub_le s.ahead.length ahead.length)
  rwa [← List.suffix_iff_eq_drop.mp h] at hdrop

theorem refl (s : State) : Records s s 0 [] := of_drop (Nat.zero_le _)

theorem advanced (s : State) : Records s s.advanced (min 1 s.ahead.length) [] := by
  rw [State.advanced, s.tail_eq_drop]
  exact of_drop (Nat.min_le_right ..)

theorem faulted (s : State) (x : Fault) : Records s (s.faulted x s.current.pos) 0 [0] where
  bound := Nat.zero_le _
  ahead := rfl
  last := rfl
  faults := ⟨[(x, s.current.pos)], rfl, congrArg ([·]) s.posAt?_zero.symm⟩
  order := List.pairwise_singleton ..
  reached := List.forall_mem_singleton.mpr (Nat.le_refl 0)

/-- A fault at the token that was just taken. -/
theorem advanced_faulted (s : State) (x : Fault) :
    Records s (s.advanced.faulted x s.current.pos) (min 1 s.ahead.length) [0] where
  bound := Nat.min_le_right ..
  ahead := s.tail_eq_drop
  last := rfl
  faults := ⟨[(x, s.current.pos)], rfl, congrArg ([·]) s.posAt?_zero.symm⟩
  order := List.pairwise_singleton ..
  reached := List.forall_mem_singleton.mpr (Nat.zero_le _)

theorem advances (h : Records s s' taken places) : Advances s s' := by
  obtain ⟨more, hmore, -⟩ := h.faults
  exact ⟨h.ahead ▸ List.drop_suffix _ _, h.last, hmore ▸ List.prefix_append _ _⟩

end Records

namespace State

/-- Fewer tokens than a bound are ahead, before the end of the source. Every state is within no
bound. -/
def Within (bound : Option Nat) (s : State) : Prop :=
  ∀ n ∈ bound, s.last.kind = .eof ∧ s.ahead.length < n

/-- A token is at hand within a bound. -/
def At (bound : Option Nat) (token : Token) (s : State) : Prop := s.Within bound ∧ s.current = token

/-- A token is at hand that is not the end of the source. -/
def Ahead (bound : Option Nat) (s : State) : Prop := s.Within bound ∧ s.current.kind ≠ .eof

/-- The bound that holds before a token is taken. -/
def wider (bound : Option Nat) : Option Nat := bound.map (· + 1)

/-- The states where a parser needs less fuel than a limit, if each token ahead may cost `weight` calls
and the parser itself `rank` more. -/
def Below (limit : Option Nat) (weight rank : Nat) (s : State) : Prop :=
  ∀ n ∈ limit, s.last.kind = .eof ∧ weight * s.ahead.length + rank < n

def BelowAhead (limit : Option Nat) (weight rank : Nat) (s : State) : Prop :=
  s.Below limit weight rank ∧ s.current.kind ≠ .eof

variable {b : Option Nat} {s s' : State}

theorem Within.of_advances (h : s.Within b) (hs : Advances s s') : s'.Within b := by
  intro n hn
  obtain ⟨hlast, hlength⟩ := h n hn
  exact ⟨hs.last ▸ hlast, Nat.lt_of_le_of_lt hs.ahead.length_le hlength⟩

theorem Within.of_shorter (h : s.Within (wider b)) (hs : Advances s s')
    (hshorter : ∀ n ∈ b, s.last.kind = .eof → s'.ahead.length < s.ahead.length) : s'.Within b := by
  intro n hn
  obtain ⟨hlast, hlength⟩ := h (n + 1) (Option.mem_map_of_mem _ hn)
  have hlt := hshorter n hn hlast
  exact ⟨hs.last ▸ hlast, by omega⟩

theorem ahead_ne_nil (hkind : s.current.kind ≠ .eof) (hlast : s.last.kind = .eof) : s.ahead ≠ [] := by
  intro hnil
  rw [current, hnil] at hkind
  exact hkind hlast

theorem length_advanced (h : s.ahead ≠ []) : s.advanced.ahead.length < s.ahead.length := by
  rw [advanced, List.length_tail]
  exact Nat.sub_lt (List.length_pos_iff.mpr h) Nat.one_pos

theorem Within.advanced (h : s.Within (wider b)) (hkind : s.current.kind ≠ .eof) :
    s.advanced.Within b :=
  h.of_shorter (Records.advanced s).advances fun _ _ hlast =>
    length_advanced (ahead_ne_nil hkind hlast)

/-- A bound, where there is a limit, within which a parser needs no more fuel than that. -/
structure Fits (limit : Option Nat) (weight rank : Nat) (b : Option Nat) : Prop where
  calls : ∀ n ∈ limit, ∃ m ∈ b, weight * m + rank ≤ n
  limited : ∀ m ∈ b, limit ≠ none

namespace Fits

variable {limit : Option Nat} {weight rank rank' : Nat}

/-- What is called with the same tokens ahead needs less fuel. -/
theorem same (h : Fits limit weight rank b) (hrank : rank' < rank) (s : State)
    (hs : s.Within (wider b)) : s.Below limit weight rank' := by
  intro n hn
  obtain ⟨m, hm, hle⟩ := h.calls n hn
  obtain ⟨hlast, hlength⟩ := hs (m + 1) (Option.mem_map_of_mem _ hm)
  have hmul : weight * s.ahead.length ≤ weight * m := Nat.mul_le_mul_left _ (Nat.le_of_lt_succ hlength)
  exact ⟨hlast, by omega⟩

theorem ahead (h : Fits limit weight rank b) (hrank : rank' < rank) (s : State)
    (hs : s.Ahead (wider b)) : s.BelowAhead limit weight rank' := ⟨h.same hrank s hs.1, hs.2⟩

theorem ahead_ne_nil (h : Fits limit weight rank b) (hlimit : limit ≠ none) (hs : s.Ahead (wider b)) :
    s.ahead ≠ [] := by
  obtain ⟨n, rfl⟩ := Option.ne_none_iff_exists'.mp hlimit
  obtain ⟨m, hm, -⟩ := h.calls n rfl
  exact State.ahead_ne_nil hs.2 (hs.1 _ (Option.mem_map_of_mem _ hm)).1

/-- What is called with fewer tokens ahead needs less fuel. -/
theorem fewer (h : Fits limit weight rank b) (hrank : rank' < weight + rank) (s : State)
    (hs : s.Within b) : s.Below limit weight rank' := by
  intro n hn
  obtain ⟨m, hm, hle⟩ := h.calls n hn
  obtain ⟨hlast, hlength⟩ := hs m hm
  have hmul : weight * (s.ahead.length + 1) ≤ weight * m := Nat.mul_le_mul_left _ hlength
  rw [Nat.mul_add, Nat.mul_one] at hmul
  exact ⟨hlast, by omega⟩

end Fits

theorem exists_fits {limit : Option Nat} {weight rank : Nat} (h : s.Below (wider limit) weight rank) :
    ∃ b, Fits limit weight rank b ∧ s.Within (wider b) := by
  cases limit with
  | none => exact ⟨none, ⟨nofun, nofun⟩, nofun⟩
  | some n =>
    obtain ⟨hlast, hlt⟩ := h (n + 1) rfl
    refine ⟨some s.ahead.length, ⟨fun _ hn => ⟨_, rfl, ?_⟩, fun _ _ => nofun⟩, fun _ hn => ⟨hlast, ?_⟩⟩
    · cases hn
      omega
    · cases hn
      exact Nat.lt_succ_self _

end State

open State (wider)

/-- The two laws of a parser `p` and the parser `q` that stands for it when positions are moved by `f`,
in the states that a condition holds of; `view` moves what `p` finds. -/
structure RegularIf {α β : Type} (cond : State → Prop) (f : Pos → Pos) (view : α → β) (p : Parse α)
    (q : Parse β) : Prop where
  records : ∀ s, cond s → ∃ taken places, Records s (p s).2 taken places
  moved : ∀ s, cond s → q (s.moved f) = (view (p s).1, (p s).2.moved f)

/-- The two laws within a bound. -/
abbrev Regular {α β : Type} (b : Option Nat) (f : Pos → Pos) (view : α → β) (p : Parse α)
    (q : Parse β) : Prop := RegularIf (State.Within b) f view p q

/-- The two laws where a token is at hand. -/
abbrev RegularAt {α β : Type} (b : Option Nat) (token : Token) (f : Pos → Pos) (view : α → β)
    (p : Parse α) (q : Parse β) : Prop := RegularIf (State.At b token) f view p q

/-- The conditions that keep states within a bound. -/
class Bounded (cond : State → Prop) (b : outParam (Option Nat)) : Prop where
  within : ∀ s, cond s → s.Within b

instance (b : Option Nat) : Bounded (State.Within b) b := ⟨fun _ => id⟩

instance (b : Option Nat) : Bounded (State.Ahead b) b := ⟨fun _ => And.left⟩

instance (b : Option Nat) (token : Token) : Bounded (State.At b token) b := ⟨fun _ => And.left⟩

section Laws

variable {α β γ δ : Type} {view : α → β} {view' : γ → δ} {token : Token} {b : Option Nat}

namespace RegularIf

variable {cond cond' : State → Prop} {p p' : Parse α} {q q' : Parse β}

theorem advances (h : RegularIf cond f view p q) {s : State} (hs : cond s) : Advances s (p s).2 := by
  obtain ⟨taken, places, hp⟩ := h.records s hs
  exact hp.advances

theorem mono (h : RegularIf cond f view p q) (hcond : ∀ s, cond' s → cond s) :
    RegularIf cond' f view p q :=
  ⟨fun s hs => h.records s (hcond s hs), fun s hs => h.moved s (hcond s hs)⟩

/-- Two steps, if the first one ends in states where the laws of the second hold. -/
theorem andThen {k : α → Parse γ} {l : β → Parse δ} (h : RegularIf cond f view p q)
    (hcond : ∀ s, cond s → cond' (p s).2) (hk : ∀ a, RegularIf cond' f view' (k a) (l (view a))) :
    RegularIf cond f view' (p >>= k) (q >>= l) where
  records s hs := by
    obtain ⟨taken, places, hp⟩ := h.records s hs
    obtain ⟨taken', places', hk⟩ := (hk (p s).1).records (p s).2 (hcond s hs)
    exact ⟨_, _, hp.trans hk⟩
  moved s hs := by
    change l (q (s.moved f)).1 (q (s.moved f)).2 = _
    rw [h.moved s hs]
    exact (hk (p s).1).moved (p s).2 (hcond s hs)

theorem ite {c : Prop} [Decidable c] (h : RegularIf cond f view p q)
    (h' : RegularIf cond f view p' q') :
    RegularIf cond f view (if c then p else p') (if c then q else q') := by
  by_cases hc : c
  · simpa only [if_pos hc] using h
  · simpa only [if_neg hc] using h'

theorem map {g : α → γ} {g' : β → δ} (h : RegularIf cond f view p q)
    (hg : ∀ a, g' (view a) = view' (g a)) : RegularIf cond f view' (g <$> p) (g' <$> q) where
  records := h.records
  moved s hs := by
    change (g' (q (s.moved f)).1, (q (s.moved f)).2) = _
    rw [h.moved s hs, hg]
    rfl

theorem pure (a : α) : RegularIf cond f view (Pure.pure a) (Pure.pure (view a)) :=
  ⟨fun s _ => ⟨_, _, .refl s⟩, fun _ _ => rfl⟩

theorem get : RegularIf cond f (State.moved f) (MonadState.get : Parse State) MonadState.get :=
  ⟨fun s _ => ⟨_, _, .refl s⟩, fun _ _ => rfl⟩

theorem current : RegularIf cond f (Token.moved f) current current :=
  ⟨fun s _ => ⟨_, _, .refl s⟩, fun s _ => Prod.ext s.current_moved rfl⟩

theorem faultCount : RegularIf cond f id faultCount faultCount :=
  ⟨fun s _ => ⟨_, _, .refl s⟩, fun _ _ => Prod.ext (List.length_map ..) rfl⟩

theorem advance : RegularIf cond f (Token.moved f) advance advance where
  records s _ := ⟨_, _, .advanced s⟩
  moved s _ := by
    simp only [advance_run, State.current_moved]
    simp [State.moved, State.advanced]

theorem skipUntil (stop : TokenKind → Bool) :
    RegularIf cond f id (skipUntil stop) (skipUntil stop) where
  records _ _ := ⟨_, _, .of_suffix (List.dropWhile_suffix _)⟩
  moved s _ := by
    rw [Parser.skipUntil, modify_run, modify_run]
    simp [State.moved, List.dropWhile_map, Function.comp_def, Token.moved]

/-- The laws hold where fuel is left if they hold within every bound that fits. -/
theorem of_fits {limit : Option Nat} {weight rank : Nat}
    (h : ∀ b, State.Fits limit weight rank b → Regular (wider b) f view p q) :
    RegularIf (State.Below (wider limit) weight rank) f view p q where
  records s hs := by
    obtain ⟨b, hb, hs⟩ := State.exists_fits hs
    exact (h b hb).records s hs
  moved s hs := by
    obtain ⟨b, hb, hs⟩ := State.exists_fits hs
    exact (h b hb).moved s hs

theorem of_fits_ahead {limit : Option Nat} {weight rank : Nat}
    (h : ∀ b, State.Fits limit weight rank b → RegularIf (State.Ahead (wider b)) f view p q) :
    RegularIf (State.BelowAhead (wider limit) weight rank) f view p q where
  records s hs := by
    obtain ⟨b, hb, hwithin⟩ := State.exists_fits hs.1
    exact (h b hb).records s ⟨hwithin, hs.2⟩
  moved s hs := by
    obtain ⟨b, hb, hwithin⟩ := State.exists_fits hs.1
    exact (h b hb).moved s ⟨hwithin, hs.2⟩

/-- What is done with the token at hand may record faults there. -/
theorem current_bind {k : Token → Parse γ} {l : Token → Parse δ}
    (hk : ∀ token, RegularAt b token f view' (k token) (l (token.moved f))) :
    Regular b f view' (Parser.current >>= k) (Parser.current >>= l) where
  records s hs := (hk s.current).records s ⟨hs, rfl⟩
  moved s hs := by
    rw [bind_run, current_run, State.current_moved]
    exact (hk s.current).moved s ⟨hs, rfl⟩

section Steps

variable [hb : Bounded cond b]

theorem of_regular (h : Regular b f view p q) : RegularIf cond f view p q := h.mono hb.within

theorem bind {k : α → Parse γ} {l : β → Parse δ} (h : RegularIf cond f view p q)
    (hk : ∀ a, Regular b f view' (k a) (l (view a))) : RegularIf cond f view' (p >>= k) (q >>= l) :=
  h.andThen (fun s hs => (hb.within s hs).of_advances (h.advances hs)) hk

end Steps

theorem kind_bind {k : TokenKind → Parse γ} {l : TokenKind → Parse δ}
    (hk : ∀ token, RegularAt b token f view' (k token.kind) (l token.kind)) :
    Regular b f view' (Parser.kind >>= k) (Parser.kind >>= l) where
  records s hs := (hk s.current).records s ⟨hs, rfl⟩
  moved s hs := by
    rw [bind_run, kind_run, State.current_moved]
    exact (hk s.current).moved s ⟨hs, rfl⟩

theorem kind : Regular b f id kind kind := .bind .current fun t => .pure t.kind

theorem at? (k : TokenKind) : Regular b f id (at? k) (at? k) := .bind .kind fun _ => .pure _

/-- Taking a token before the end of the source. -/
theorem take {kind : TokenKind} {k : Token → Parse γ} {l : Token → Parse δ} (hkind : token.kind = kind)
    (hne : kind ≠ .eof) (hk : ∀ t, Regular b f view' (k t) (l (t.moved f))) :
    RegularAt (wider b) token f view' (Parser.advance >>= k) (Parser.advance >>= l) :=
  .andThen .advance (fun s hs => hs.1.advanced (by rwa [hs.2, hkind])) hk

theorem fault (x : Fault) : RegularAt b token f id (fault x token.pos) (fault x (f token.pos)) where
  records := by
    rintro s ⟨-, rfl⟩
    exact ⟨_, _, .faulted s x⟩
  moved s _ := by
    simp only [fault_run]
    simp [State.moved, State.faulted]

theorem unexpected (want : Want) :
    RegularAt b token f id (unexpected token want) (unexpected (token.moved f) want) := .fault _

/-- Where the fuel is used up, what is found depends on the position at hand alone. -/
theorem exhausted {cond : State → Prop} {tree : Pos → α} {tree' : Pos → β}
    (h : ∀ pos, tree' (f pos) = view (tree pos)) :
    RegularIf cond f view (exhausted tree) (exhausted tree') := by
  have hlaws : Regular none f view (Parser.exhausted tree) (Parser.exhausted tree') := by
    unfold Parser.exhausted
    refine .current_bind fun token => .bind (.unexpected _) fun _ => ?_
    rw [show (token.moved f).pos = f token.pos from rfl, h]
    exact .pure _
  exact hlaws.mono fun _ _ => nofun

/-- A fault at the token that was just taken, before anything else is read. -/
theorem take_fault {k : Unit → Parse γ} {l : Unit → Parse δ} (x : Fault) (hkind : token.kind ≠ .eof)
    (hk : ∀ u, Regular b f view' (k u) (l u)) :
    RegularAt (wider b) token f view' (Parser.advance >>= fun _ => Parser.fault x token.pos >>= k)
      (Parser.advance >>= fun _ => Parser.fault x (f token.pos) >>= l) where
  records := by
    rintro s ⟨hs, rfl⟩
    have hcond : (s.advanced.faulted x s.current.pos).Within b := hs.advanced hkind
    obtain ⟨taken, places, hk⟩ := (hk ()).records _ hcond
    exact ⟨_, _, (Records.advanced_faulted s x).trans hk⟩
  moved := by
    rintro s ⟨hs, rfl⟩
    have hcond : (s.advanced.faulted x s.current.pos).Within b := hs.advanced hkind
    have hmoved : ((s.moved f).advanced.faulted x (f s.current.pos)) =
        (s.advanced.faulted x s.current.pos).moved f := by
      simp [State.moved, State.advanced, State.faulted]
    change l () ((s.moved f).advanced.faulted x (f s.current.pos)) = _
    rw [hmoved]
    exact (hk ()).moved _ hcond

theorem expect (k : TokenKind) : Regular b f (Token.moved f) (expect k) (expect k) := by
  refine .current_bind fun token => .ite .advance ?_
  exact .bind (.unexpected _) fun _ => .pure token

/-- Taking a token that is expected and at hand. -/
theorem expected {kind : TokenKind} {k : Token → Parse γ} {l : Token → Parse δ}
    (hkind : token.kind = kind) (hne : kind ≠ .eof)
    (hk : ∀ t, Regular b f view' (k t) (l (t.moved f))) :
    RegularAt (wider b) token f view' (Parser.expect kind >>= k) (Parser.expect kind >>= l) := by
  refine .andThen (expect kind).of_regular (fun s hs => ?_) hk
  have hcurrent : s.current.kind = kind := by rw [hs.2, hkind]
  rw [expect_run, if_pos (beq_iff_eq.mpr hcurrent)]
  exact hs.1.advanced (hcurrent ▸ hne)

theorem accept (k : TokenKind) : Regular b f id (accept k) (accept k) :=
  .bind (.at? k) fun _ => .ite (.bind .advance fun _ => .pure true) (.pure false)

/-- What is done after a token was accepted has fewer tokens ahead. -/
theorem accept_bind {kind : TokenKind} (hne : kind ≠ .eof) {k : Bool → Parse γ} {l : Bool → Parse δ}
    (hyes : Regular b f view' (k true) (l true))
    (hno : Regular (wider b) f view' (k false) (l false)) :
    Regular (wider b) f view' (Parser.accept kind >>= k) (Parser.accept kind >>= l) := by
  have heq {ε : Type} (k : Bool → Parse ε) : (Parser.accept kind >>= k) =
      Parser.current >>= fun token =>
        if token.kind == kind then Parser.advance >>= fun _ => k true else k false := by
    funext s
    rw [bind_run, accept_run, bind_run, current_run]
    split <;> rfl
  rw [heq, heq]
  refine .current_bind fun token => ?_
  by_cases hkind : token.kind = kind
  · simp only [Token.moved, hkind, beq_self_eq_true, if_true]
    exact .take hkind hne fun _ => hyes
  · simp only [Token.moved, beq_eq_false_iff_ne.mpr hkind, Bool.false_eq_true, if_false]
    exact .of_regular hno

/-- A trial that is kept recorded nothing, and one that failed never happened. -/
theorem speculate {p : Parse (Option α)} {q : Parse (Option β)}
    (h : Regular b f (Option.map view) p q) :
    Regular b f (Option.map view) (speculate p) (speculate q) where
  records s hs := by
    obtain ⟨taken, places, hp⟩ := h.records { s with faults := [] } hs
    rw [speculate_run]
    split
    · rename_i a after heq
      rw [heq] at hp
      split
      · exact ⟨taken, [], hp.bound, hp.ahead, hp.last, ⟨[], (List.append_nil _).symm, rfl⟩, .nil,
          nofun⟩
      · exact ⟨_, _, .refl s⟩
    · exact ⟨_, _, .refl s⟩
  moved s hs := by
    have hq := h.moved { s with faults := [] } hs
    rw [show State.moved f { s with faults := [] } = { s.moved f with faults := [] } from rfl] at hq
    rw [speculate_run, speculate_run, hq]
    rcases p { s with faults := [] } with ⟨r, after⟩
    cases r with
    | none => rfl
    | some a =>
      have hempty : (after.moved f).faults.isEmpty = after.faults.isEmpty := by
        simp [State.moved]
      simp only [Option.map_some, hempty]
      split <;> rfl

/-- A trial and what follows it, which starts where the trial did if that failed. -/
theorem trial_bind [hb : Bounded cond b] {p : Parse (Option α)} {q : Parse (Option β)}
    {k : Option α → Parse γ} {l : Option β → Parse δ} (h : RegularIf cond f (Option.map view) p q)
    (hfails : ∀ s, (p s).1 = none → (p s).2 = s)
    (hsome : ∀ a, Regular b f view' (k (some a)) (l (some (view a))))
    (hnone : RegularIf cond f view' (k none) (l none)) :
    RegularIf cond f view' (p >>= k) (q >>= l) where
  records s hs := by
    rw [bind_run]
    cases hr : (p s).1 with
    | none =>
      rw [hfails s hr]
      exact hnone.records s hs
    | some a =>
      obtain ⟨taken, places, hp⟩ := h.records s hs
      obtain ⟨taken', places', hk⟩ :=
        (hsome a).records _ ((hb.within s hs).of_advances hp.advances)
      exact ⟨_, _, hp.trans hk⟩
  moved s hs := by
    rw [bind_run, bind_run, h.moved s hs]
    cases hr : (p s).1 with
    | none =>
      rw [hfails s hr]
      exact hnone.moved s hs
    | some a => exact (hsome a).moved _ ((hb.within s hs).of_advances (h.advances hs))

/-- Things with commas between them, each seen through `view`. -/
theorem separated {item : Parse α} {item' : Parse β} {more : Parse (List α)} {more' : Parse (List β)}
    {views : List α → List β} (hnil : views [] = [])
    (hcons : ∀ x xs, views (x :: xs) = view x :: views xs)
    (hitem : Regular (wider b) f view item item') (hmore : Regular b f views more more') :
    Regular (wider b) f views (separated item more) (separated item' more') := by
  refine .bind hitem fun first => .accept_bind (by decide) (.bind hmore fun rest => ?_) ?_
  · rw [← hcons]
    exact .pure (first :: rest)
  · rw [← hnil, ← hcons]
    exact .pure [first]

end RegularIf

end Laws

end PeakLang.Tree.Parser
