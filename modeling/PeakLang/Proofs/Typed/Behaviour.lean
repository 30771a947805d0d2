import PeakLang.Proofs.Typed.Simplify

namespace PeakLang.Typed

namespace Outcome

/-- One outcome stands for another wherever that one is good. -/
def Refines (o o' : Outcome) : Prop := ∀ left c, o = .done left c → o' = .done left c

theorem Refines.refl (o : Outcome) : o.Refines o := fun _ _ h => h

/-- What is done after an outcome may be replaced, if it makes nothing good of a bad one. -/
theorem Refines.after {o o' : Outcome} {f g : Outcome → Outcome} (h : o.Refines o')
    (hcut : f .cutShort = .cutShort) (hfailed : ∀ failure, f (.failed failure) = .failed failure)
    (hdone : ∀ left c, (f (.done left c)).Refines (g (.done left c))) : (f o).Refines (g o') := by
  intro left c heq
  cases o with
  | cutShort => cases hcut.symm.trans heq
  | failed failure => cases (hfailed failure).symm.trans heq
  | done left' c' =>
    rw [h left' c' rfl]
    exact hdone left' c' left c heq

theorem Refines.andThen {o o' : Outcome} {next next' : Config → Outcome} (h : o.Refines o')
    (hnext : ∀ c, (next c).Refines (next' c)) : (o.andThen next).Refines (o'.andThen next') := by
  refine h.after (f := fun o => o.andThen next) (g := fun o => o.andThen next') rfl (fun _ => rfl)
    fun left c => ?_
  cases left with
  | true => exact .refl _
  | false => exact hnext c

theorem Refines.afterRound {o o' : Outcome} {next next' : Config → Outcome} (h : o.Refines o')
    (hnext : ∀ c, (next c).Refines (next' c)) :
    (o.afterRound next).Refines (o'.afterRound next') := by
  refine h.after (f := fun o => o.afterRound next) (g := fun o => o.afterRound next') rfl
    (fun _ => rfl) fun left c => ?_
  cases left with
  | true => exact .refl _
  | false => exact hnext c

theorem Refines.ofResult {α : Type} {r r' : Except Failure α} {next next' : α → Outcome}
    (h : ∀ a, r = .ok a → r' = .ok a) (hnext : ∀ a, (next a).Refines (next' a)) :
    (ofResult r next).Refines (ofResult r' next') := by
  intro left c hdone
  cases r with
  | error => cases hdone
  | ok a =>
    rw [h a rfl]
    exact hnext a left c hdone

theorem refines_of_ok {α : Type} {r : Except Failure α} {next : α → Outcome} {o : Outcome}
    (h : ∀ a, r = .ok a → (next a).Refines o) : (ofResult r next).Refines o := by
  cases r with
  | error => exact fun _ _ hdone => nomatch hdone
  | ok a => exact h a rfl

end Outcome

open Outcome (Refines)

/-- A loop whose test and body are replaced runs through the same rounds. -/
theorem repeatWhile_refines {test test' : Store → Except Failure Bool}
    {body body' : Config → Outcome} (htest : ∀ s b, test s = .ok b → test' s = .ok b)
    (hbody : ∀ c, (body c).Refines (body' c)) (rounds : Nat) (c : Config) :
    (repeatWhile test body rounds c).Refines (repeatWhile test' body' rounds c) := by
  induction rounds generalizing c with
  | zero => exact .refl _
  | succ rounds ih =>
    refine .ofResult (htest c.store) fun b => ?_
    cases b with
    | true => exact (hbody c).afterRound ih
    | false => exact .refl _

theorem repeatFor_refines {v : Variable} {body body' : Config → Outcome}
    (hbody : ∀ c, (body c).Refines (body' c)) (xs : List Value) (c : Config) :
    (repeatFor v body xs c).Refines (repeatFor v body' xs c) := by
  induction xs generalizing c with
  | nil => exact .refl _
  | cons x xs ih => exact (hbody (c.set v x)).afterRound ih

/-- A loop whose test never holds does nothing. -/
theorem repeatWhile_false {test : Store → Except Failure Bool} {body : Config → Outcome}
    (htest : ∀ s b, test s = .ok b → b = false) (rounds : Nat) (c : Config) :
    (repeatWhile test body rounds c).Refines (.done false c) := by
  cases rounds with
  | zero => exact fun _ _ hdone => nomatch hdone
  | succ rounds =>
    refine Outcome.refines_of_ok fun b hb => ?_
    cases htest c.store b hb
    exact .refl _

theorem Stmt.execAll_append {rounds : Nat} (xs ys : List Stmt) (c : Config) :
    Stmt.execAll rounds (xs ++ ys) c =
      (Stmt.execAll rounds xs c).andThen fun c => Stmt.execAll rounds ys c := by
  induction xs generalizing c with
  | nil => rfl
  | cons x xs ih =>
    simp only [List.cons_append, Stmt.execAll]
    cases Stmt.exec rounds x c with
    | cutShort | failed => rfl
    | done left c' =>
      cases left with
      | true => rfl
      | false => exact ih c'

theorem Stmt.execAll_singleton {rounds : Nat} (x : Stmt) (c : Config) :
    Stmt.execAll rounds [x] c = Stmt.exec rounds x c := by
  simp only [Stmt.execAll]
  cases Stmt.exec rounds x c with
  | cutShort | failed => rfl
  | done left c' => cases left <;> rfl

namespace Expr

variable {classes : List Class}

theorem simplify_holds {e : Expr} {s : Store} {b : Bool} (htyped : e.WellTyped classes)
    (hplain : e.isPlain = true) (h : e.holds s = .ok b) : e.simplify.holds s = .ok b := by
  simp only [holds, bind_eq_ok_iff, asBool_eq_ok_iff] at h ⊢
  obtain ⟨_, h, rfl⟩ := h
  exact ⟨_, simplify_eval e htyped hplain h, rfl⟩

theorem holds_of_simplify_eq_bool {e : Expr} {s : Store} {b decided : Bool}
    (htyped : e.WellTyped classes) (hplain : e.isPlain = true) (hconst : e.simplify = .bool decided)
    (h : e.holds s = .ok b) : b = decided := by
  have hsimplify := simplify_holds htyped hplain h
  rw [hconst] at hsimplify
  cases hsimplify
  rfl

theorem simplifyAll_evalAll {es : List Expr} {s : Store} {xs : List Value}
    (htyped : WellTypedAll classes es) (hplain : es.all isPlain = true)
    (h : evalAll s es = .ok xs) : evalAll s (simplifyAll es) = .ok xs := by
  induction es generalizing xs with
  | nil => exact h
  | cons e rest ih =>
    simp only [List.all_cons, Bool.and_eq_true] at hplain
    simp only [evalAll, bind_eq_ok_iff, pure_eq_ok_iff] at h
    obtain ⟨x, hx, xs', hxs, rfl⟩ := h
    simp only [simplifyAll, evalAll, bind_eq_ok_iff, pure_eq_ok_iff]
    exact ⟨x, simplify_eval e htyped.1 hplain.1 hx, xs', ih htyped.2 hplain.2 hxs, rfl⟩

theorem simplify_elements {e : Expr} {s : Store} {xs : List Value} (htyped : e.WellTyped classes)
    (hplain : e.isPlainArray = true) (h : e.elements s = .ok xs) :
    e.simplify.elements s = .ok xs := by
  cases e with
  | array es type => exact simplifyAll_evalAll htyped.2.1 hplain h
  | emptyArray type => exact h
  | _ => cases hplain

/-- Storing what a variable holds already changes nothing. -/
theorem set_of_sameEntity {v : Variable} {source : Expr} {c : Config} {x : Value}
    (hsame : (Expr.var (some v)).sameEntity source = true) (h : source.eval c.store = .ok x) :
    c.set v x = c := by
  cases source with
  | var w =>
    cases w with
    | none => cases h
    | some w =>
      have hid : v.id = w.id := by simpa [sameEntity] using hsame
      have hx : c.store w.id = some x := by
        simp only [eval] at h
        split at h
        · cases h
          assumption
        · cases h
      have hstore : (c.set v x).store = c.store := by
        funext id
        by_cases h : id = v.id
        · simp [Config.set, h, hid, hx]
        · simp [Config.set, h]
      cases c
      simp only [Config.set, Config.mk.injEq, and_true] at hstore ⊢
      exact hstore
  | _ => cases hsame

end Expr

namespace Stmt

variable (test collection : Expr) (consequent alternate body : List Stmt) (v : Option Variable)

/-- A branch is decided by a constant test, or stays a branch. -/
theorem simplify_branch :
    (∃ b, test.simplify = .bool b ∧ (branch test consequent alternate).simplify =
      bif b then simplifyAll consequent else simplifyAll alternate) ∨
    (branch test consequent alternate).simplify =
      [.branch test.simplify (simplifyAll consequent) (simplifyAll alternate)] := by
  rw [simplify]
  split
  · exact .inl ⟨true, by assumption, rfl⟩
  · exact .inl ⟨false, by assumption, rfl⟩
  · exact .inr rfl

theorem simplify_shortBranch :
    (∃ b, test.simplify = .bool b ∧
      (shortBranch test consequent).simplify = bif b then simplifyAll consequent else []) ∨
    (shortBranch test consequent).simplify = [.shortBranch test.simplify (simplifyAll consequent)] := by
  rw [simplify]
  split
  · exact .inl ⟨true, by assumption, rfl⟩
  · exact .inl ⟨false, by assumption, rfl⟩
  · exact .inr rfl

theorem simplify_loop :
    (test.simplify = .bool false ∧ (loop test body).simplify = []) ∨
    (loop test body).simplify = [.loop test.simplify (simplifyAll body)] := by
  rw [simplify]
  split
  · exact .inl ⟨by assumption, rfl⟩
  · exact .inr rfl

theorem simplify_forEach :
    ((∃ type, collection.simplify = .emptyArray type) ∧ (forEach v collection body).simplify = []) ∨
    (forEach v collection body).simplify = [.forEach v collection.simplify (simplifyAll body)] := by
  rw [simplify]
  split
  · exact .inl ⟨⟨_, by assumption⟩, rfl⟩
  · exact .inr rfl

end Stmt

mutual

/-- What a statement comes to does what the statement does. -/
theorem Stmt.simplify_exec {classes : List Class} {function : Option Signature} (s : Stmt)
    (htyped : s.WellTyped classes function) (hplain : s.isPlain = true) (rounds : Nat) (c : Config) :
    (Stmt.exec rounds s c).Refines (Stmt.execAll rounds s.simplify c) := by
  cases s with
  | declare v init =>
    cases v with
    | none => cases hplain
    | some v =>
      rw [Stmt.simplify, Stmt.execAll_singleton]
      exact .ofResult (fun x hx => init.simplify_eval htyped.1 hplain hx) fun _ => .refl _
  | assign target source =>
    simp only [Stmt.isPlain, Bool.and_eq_true] at hplain
    obtain ⟨htarget, hplain⟩ := hplain
    cases target with
    | var v =>
      cases v with
      | none => cases htarget
      | some v =>
        rw [Stmt.simplify]
        by_cases hsame : (Expr.var (some v)).simplify.sameEntity source.simplify = true
        · rw [if_pos hsame]
          refine Outcome.refines_of_ok fun x hx => ?_
          rw [Expr.set_of_sameEntity hsame (source.simplify_eval htyped.2.1 hplain hx)]
          exact .refl _
        · rw [if_neg hsame, Stmt.execAll_singleton]
          exact .ofResult (fun x hx => source.simplify_eval htyped.2.1 hplain hx) fun _ => .refl _
    | _ => cases htarget
  | bump op target =>
    cases target with
    | var v =>
      rw [Stmt.simplify, Stmt.execAll_singleton]
      exact .refl _
    | _ => cases hplain
  | branch test consequent alternate =>
    simp only [Stmt.isPlain, Bool.and_eq_true] at hplain
    obtain ⟨⟨htest, hconsequent⟩, halternate⟩ := hplain
    have hc := Stmt.simplifyAll_exec consequent htyped.2.2.1 hconsequent rounds c
    have ha := Stmt.simplifyAll_exec alternate htyped.2.2.2 halternate rounds c
    rcases simplify_branch test consequent alternate with ⟨b, hb, heq⟩ | heq
    · rw [heq]
      refine Outcome.refines_of_ok fun b' hb' => ?_
      cases Expr.holds_of_simplify_eq_bool htyped.1 htest hb hb'
      cases b with
      | true => exact hc
      | false => exact ha
    · rw [heq, Stmt.execAll_singleton]
      refine .ofResult (fun b => Expr.simplify_holds htyped.1 htest) fun b => ?_
      cases b with
      | true => exact hc
      | false => exact ha
  | shortBranch test consequent =>
    simp only [Stmt.isPlain, Bool.and_eq_true] at hplain
    obtain ⟨htest, hconsequent⟩ := hplain
    have hc := Stmt.simplifyAll_exec consequent htyped.2.2 hconsequent rounds c
    rcases simplify_shortBranch test consequent with ⟨b, hb, heq⟩ | heq
    · rw [heq]
      refine Outcome.refines_of_ok fun b' hb' => ?_
      cases Expr.holds_of_simplify_eq_bool htyped.1 htest hb hb'
      cases b with
      | true => exact hc
      | false => exact .refl _
    · rw [heq, Stmt.execAll_singleton]
      refine .ofResult (fun b => Expr.simplify_holds htyped.1 htest) fun b => ?_
      cases b with
      | true => exact hc
      | false => exact .refl _
  | loop test body =>
    simp only [Stmt.isPlain, Bool.and_eq_true] at hplain
    obtain ⟨htest, hbody⟩ := hplain
    have ih := Stmt.simplifyAll_exec body htyped.2.2 hbody rounds
    rcases simplify_loop test body with ⟨hfalse, heq⟩ | heq
    · rw [heq]
      exact repeatWhile_false
        (fun s b => Expr.holds_of_simplify_eq_bool htyped.1 htest hfalse) rounds c
    · rw [heq, Stmt.execAll_singleton]
      exact repeatWhile_refines (fun s b => Expr.simplify_holds htyped.1 htest) ih rounds c
  | forEach v collection body =>
    cases v with
    | none => cases hplain
    | some v =>
      simp only [Stmt.isPlain, Bool.and_eq_true] at hplain
      obtain ⟨hcollection, hbody⟩ := hplain
      have ih := Stmt.simplifyAll_exec body htyped.2.2 hbody rounds
      have helements (xs : List Value) (h : collection.elements c.store = .ok xs) :
          collection.simplify.elements c.store = .ok xs :=
        Expr.simplify_elements htyped.1 hcollection h
      rcases simplify_forEach collection body (some v) with ⟨⟨type, hempty⟩, heq⟩ | heq
      · rw [heq]
        refine Outcome.refines_of_ok fun xs hxs => ?_
        have hnil := helements xs hxs
        rw [hempty] at hnil
        cases hnil
        exact .refl _
      · rw [heq, Stmt.execAll_singleton]
        exact .ofResult helements fun xs => repeatFor_refines ih xs c
  | leave =>
    rw [Stmt.simplify, Stmt.execAll_singleton]
    exact .refl _
  | print value =>
    rw [Stmt.simplify, Stmt.execAll_singleton]
    exact .ofResult (fun x hx => value.simplify_eval htyped hplain hx) fun _ => .refl _
  | _ => cases hplain

theorem Stmt.simplifyAll_exec {classes : List Class} {function : Option Signature} (body : List Stmt)
    (htyped : Stmt.WellTypedAll classes function body) (hplain : Stmt.isPlainAll body = true)
    (rounds : Nat) (c : Config) :
    (Stmt.execAll rounds body c).Refines (Stmt.execAll rounds (Stmt.simplifyAll body) c) := by
  cases body with
  | nil => exact .refl _
  | cons s rest =>
    simp only [Stmt.isPlainAll, Bool.and_eq_true] at hplain
    rw [Stmt.simplifyAll, Stmt.execAll_append]
    exact (Stmt.simplify_exec s htyped.1 hplain.1 rounds c).andThen
      (Stmt.simplifyAll_exec rest htyped.2 hplain.2 rounds)

end

/-- Simplifying keeps what a program does: if a plain program that obeys the rules ends well from some
store within some number of rounds, then the simplified one does too, having printed the same and
leaving the same store. -/
theorem Program.run_simplify (program : Program) (htyped : program.WellTyped)
    (hplain : Stmt.isPlainAll program = true) (rounds : Nat) (s s' : Store) (printed : List Value)
    (left : Bool) (hrun : program.run rounds s = .done left ⟨s', printed⟩) :
    program.simplify.run rounds s = .done left ⟨s', printed⟩ :=
  Stmt.simplifyAll_exec program htyped hplain rounds ⟨s, []⟩ left ⟨s', printed⟩ hrun

/-- Counts down from five: the zero that is added and the choice in the loop are simplified. -/
private def countdown : Program :=
  let n : Variable := ⟨7, "n".toUTF8.toList, .pump, false, false⟩
  [.declare (some n) (.binary .plus (.int 2) (.int 3) .pump),
    .loop (.binary .lt (.int 2) (.var (some n)) .boolean)
      [.print (.binary .plus (.var (some n)) (.int 0) .pump),
        .branch (.bool true) [.bump .decrement (.var (some n))] [.leave]]]

theorem Program.run_simplify_countdown :
    ∃ s', countdown.simplify.run 4 (fun _ => none) = .done false ⟨s', [.int 5, .int 4, .int 3]⟩ := by
  refine ⟨_, run_simplify countdown ?_ rfl 4 _ _ _ _ rfl⟩
  refine ⟨⟨⟨trivial, trivial, .sum rfl rfl⟩, _, rfl, rfl⟩, ⟨⟨trivial, ⟨_, rfl, rfl⟩, ?_⟩, rfl,
    ⟨⟨_, rfl, rfl⟩, trivial, .sum rfl rfl⟩, ⟨trivial, rfl, ⟨⟨⟨_, rfl, rfl⟩, rfl, rfl⟩, trivial⟩,
      trivial, trivial⟩, trivial⟩, trivial⟩
  exact .order (.inl rfl) rfl rfl

end PeakLang.Typed
