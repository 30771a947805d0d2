import Mathlib.Logic.ExistsUnique
import PeakLang.Diagnostic
import PeakLang.Proofs.Token.Order

namespace PeakLang

namespace Pos

variable {p q r : Pos}

theorem precedes_trans (hpq : q.precedes p = false) (hqr : r.precedes q = false) :
    r.precedes p = false := by
  rw [precedes_eq_false_iff] at *
  omega

/-- Positions of which neither comes before the other are the same. -/
theorem eq_of_not_precedes (hpq : p.precedes q = false) (hqp : q.precedes p = false) : p = q := by
  rw [precedes_eq_false_iff] at hpq hqp
  cases p
  cases q
  simp only [mk.injEq] at *
  omega

end Pos

namespace Diagnostics

variable {ds entries : Diagnostics}

/-- What can be done with a collection: a message is recorded, or the collection is asked for what it
holds, for that in the order of the source, for the first error or for its text. -/
inductive Op where
  | error (pos : Pos) (message : Text)
  | warning (pos : Pos) (message : Text)
  | advice (pos : Pos) (message hint : Text)
  | all
  | sorted
  | first
  | shown (file : Text)

/-- What an operation answers. -/
inductive Answer where
  | done
  | entries (ds : Diagnostics)
  | first (e : Option SyntaxError)
  | text (t : Text)

/-- One operation: what it answers, and the collection after it. -/
def step (ds : Diagnostics) : Op → Answer × Diagnostics
  | .error pos message => (.done, ds ++ [.error pos message])
  | .warning pos message => (.done, ds ++ [.warning pos message])
  | .advice pos message hint => (.done, ds ++ [.advice pos message hint])
  | .all => (.entries ds, ds)
  | .sorted => (.entries ds.sorted, ds)
  | .first => (.first ds.first?, ds)
  | .shown file => (.text (ds.shown file), ds)

/-- Operations in a row: what each of them answers, and the collection after all of them. -/
def run (ds : Diagnostics) : List Op → List Answer × Diagnostics
  | [] => ([], ds)
  | op :: ops =>
    let rest := run (ds.step op).2 ops
    ((ds.step op).1 :: rest.1, rest.2)

/-- The diagnostic that an operation records; one that asks records none. -/
def Op.recorded? : Op → Option Diagnostic
  | error pos message => some ⟨.error, message, pos, []⟩
  | warning pos message => some ⟨.warning, message, pos, []⟩
  | advice pos message hint => some ⟨.warning, message, pos, hint⟩
  | _ => none

/-- The diagnostics of a collection in the order of the source: all of them, by line and column, those
at one position as they were recorded. -/
structure InSourceOrder (ds entries : Diagnostics) : Prop where
  perm : entries.Perm ds
  order : entries.Pairwise fun a b => b.pos.precedes a.pos = false
  stable : ∀ pos, (entries.filter fun d => d.pos == pos) = ds.filter fun d => d.pos == pos

/-- The error of a collection that is least by line, column and order of recording, and the number of
errors. -/
structure IsFirst (ds : Diagnostics) (e : SyntaxError) : Prop where
  least : ∃ i : Nat, ds[i]? = some e.first ∧ e.first.isError = true ∧
    ∀ (j : Nat) (d : Diagnostic), ds[j]? = some d → d.isError = true →
      e.first.pos.precedes d.pos = true ∨ (e.first.pos = d.pos ∧ i ≤ j)
  count : e.count = ds.countP Diagnostic.isError

/-- What an operation on a collection must answer. -/
def Answers (ds : Diagnostics) (answer : Answer) : Op → Prop
  | .all => answer = .entries ds
  | .sorted => ∃ entries, ds.InSourceOrder entries ∧ answer = .entries entries
  | .first => (answer = .first none ∧ ∀ d ∈ ds, d.isError = false) ∨
      ∃ e, ds.IsFirst e ∧ answer = .first (some e)
  | .shown file => ∃ entries, ds.InSourceOrder entries ∧
      answer = .text (Text.join "\n" (entries.map (Diagnostic.shown file)))
  | _ => answer = .done

/-- Operations in a row are answered as they must be, each on what was there and recorded before it. -/
def Answered (ds : Diagnostics) : List Op → List Answer → Prop
  | op :: ops, answer :: answers =>
    ds.Answers answer op ∧ Answered (ds ++ op.recorded?.toList) ops answers
  | ops, answers => ops = [] ∧ answers = []

section Sorted

theorem le_trans (a b c : Diagnostic) (hab : (!b.pos.precedes a.pos) = true)
    (hbc : (!c.pos.precedes b.pos) = true) : (!c.pos.precedes a.pos) = true := by
  rw [Bool.not_eq_true'] at *
  exact Pos.precedes_trans hab hbc

theorem le_total (a b : Diagnostic) : (!b.pos.precedes a.pos || !a.pos.precedes b.pos) = true := by
  cases h : b.pos.precedes a.pos with
  | false => rfl
  | true => rw [Pos.precedes_asymm h, Bool.not_false, Bool.or_true]

/-- The diagnostics at one position are ordered as they are, so sorting keeps them. -/
theorem filter_sorted (ds : Diagnostics) (pos : Pos) :
    (ds.sorted.filter fun d => d.pos == pos) = ds.filter fun d => d.pos == pos := by
  have hsame : (ds.filter fun d => d.pos == pos).Pairwise fun a b => !b.pos.precedes a.pos := by
    refine List.pairwise_of_forall_mem_list fun a ha b hb => ?_
    have ha := beq_iff_eq.mp (List.mem_filter.mp ha).2
    have hb := beq_iff_eq.mp (List.mem_filter.mp hb).2
    rw [ha, hb, Pos.precedes_irrefl, Bool.not_false]
  have hsub := (List.sublist_mergeSort le_trans le_total hsame List.filter_sublist).filter
    fun d => d.pos == pos
  rw [List.filter_filter] at hsub
  simp only [Bool.and_self] at hsub
  exact (hsub.eq_of_length ((List.mergeSort_perm ds _).filter _).length_eq.symm).symm

theorem inSourceOrder_sorted (ds : Diagnostics) : ds.InSourceOrder ds.sorted where
  perm := List.mergeSort_perm ds _
  order := (List.pairwise_mergeSort le_trans le_total ds).imp fun h => (Bool.not_eq_true' _).mp h
  stable := ds.filter_sorted

theorem mem_of_filter_eq {as bs : Diagnostics}
    (h : ∀ pos, (as.filter fun d => d.pos == pos) = bs.filter fun d => d.pos == pos) {d : Diagnostic}
    (hd : d ∈ as) : d ∈ bs := by
  have hmem : d ∈ as.filter fun x => x.pos == d.pos := List.mem_filter.mpr ⟨hd, beq_self_eq_true _⟩
  rw [h] at hmem
  exact (List.mem_filter.mp hmem).1

/-- The first of the diagnostics in order comes before no other. -/
theorem not_precedes_head {a d : Diagnostic}
    (h : (a :: entries).Pairwise fun a b => b.pos.precedes a.pos = false) (hd : d ∈ a :: entries) :
    d.pos.precedes a.pos = false := by
  rcases List.mem_cons.mp hd with rfl | hd
  · exact Pos.precedes_irrefl _
  · exact List.rel_of_pairwise_cons h hd

/-- What stands at each position, and the order of positions, make up the whole. -/
theorem eq_of_filter_eq {as bs : Diagnostics}
    (ha : as.Pairwise fun a b => b.pos.precedes a.pos = false)
    (hb : bs.Pairwise fun a b => b.pos.precedes a.pos = false)
    (h : ∀ pos, (as.filter fun d => d.pos == pos) = bs.filter fun d => d.pos == pos) : as = bs := by
  induction as generalizing bs with
  | nil =>
    refine (List.eq_nil_iff_forall_not_mem.mpr fun b hmem => ?_).symm
    cases mem_of_filter_eq (fun pos => (h pos).symm) hmem
  | cons a as ih =>
    cases bs with
    | nil => cases mem_of_filter_eq h List.mem_cons_self
    | cons b bs =>
      have hpos : a.pos = b.pos := by
        apply Pos.eq_of_not_precedes
        · exact not_precedes_head hb (mem_of_filter_eq h List.mem_cons_self)
        · exact not_precedes_head ha (mem_of_filter_eq (fun pos => (h pos).symm) List.mem_cons_self)
      have hhead := h a.pos
      rw [List.filter_cons, List.filter_cons, if_pos (beq_self_eq_true _),
        if_pos (beq_iff_eq.mpr hpos.symm)] at hhead
      obtain ⟨rfl, -⟩ := List.cons.inj hhead
      refine congrArg _ (ih ha.tail hb.tail fun pos => ?_)
      have hpos := h pos
      rw [List.filter_cons, List.filter_cons] at hpos
      split at hpos
      · exact (List.cons.inj hpos).2
      · exact hpos

/-- There is one order of the source. -/
theorem InSourceOrder.eq_sorted (h : ds.InSourceOrder entries) : entries = ds.sorted :=
  eq_of_filter_eq h.order (inSourceOrder_sorted ds).order fun pos =>
    (h.stable pos).trans (ds.filter_sorted pos).symm

end Sorted

section First

/-- Of the errors at the position of the first one, it was recorded first. -/
theorem find?_at_first {d : Diagnostic} (h : ds.sorted.find? Diagnostic.isError = some d) :
    ds.find? (fun x => decide ((x.pos == d.pos) = true ∧ x.isError = true)) = some d := by
  rw [← List.find?_filter, ← filter_sorted, List.find?_filter]
  obtain ⟨herror, before, after, hsorted, hbefore⟩ := List.find?_eq_some_iff_append.mp h
  refine List.find?_eq_some_iff_append.mpr ⟨?_, before, after, hsorted, fun x hx => ?_⟩
  · exact decide_eq_true ⟨beq_self_eq_true _, herror⟩
  · simp only [(Bool.not_eq_true' _).mp (hbefore x hx), Bool.false_eq_true, and_false, decide_false,
      Bool.not_false]

/-- No error comes before the first one. -/
theorem not_precedes_first {d x : Diagnostic} (h : ds.sorted.find? Diagnostic.isError = some d)
    (hx : x ∈ ds) (herror : x.isError = true) : x.pos.precedes d.pos = false := by
  obtain ⟨-, before, after, hsorted, hbefore⟩ := List.find?_eq_some_iff_append.mp h
  have hmem : x ∈ before ++ d :: after := hsorted ▸ (inSourceOrder_sorted ds).perm.mem_iff.mpr hx
  have horder := (inSourceOrder_sorted ds).order
  rw [hsorted, List.pairwise_append] at horder
  rcases List.mem_append.mp hmem with hmem | hmem
  · have hnone := hbefore x hmem
    rw [herror] at hnone
    cases hnone
  · exact not_precedes_head horder.2.1 hmem

theorem isFirst_of_find? {d : Diagnostic} (h : ds.sorted.find? Diagnostic.isError = some d) :
    ds.IsFirst ⟨d, ds.errorCount⟩ where
  least := by
    obtain ⟨hd, i, hi, hget, hbefore⟩ := List.find?_eq_some_iff_getElem.mp (find?_at_first h)
    refine ⟨i, List.getElem?_eq_some_iff.mpr ⟨hi, hget⟩, (of_decide_eq_true hd).2, ?_⟩
    intro j x hx herror
    obtain ⟨hj, rfl⟩ := List.getElem?_eq_some_iff.mp hx
    have hnot := not_precedes_first h (List.getElem_mem hj) herror
    cases hprecedes : d.pos.precedes ds[j].pos with
    | true => exact .inl rfl
    | false =>
      have hpos := Pos.eq_of_not_precedes hprecedes hnot
      refine .inr ⟨hpos, Nat.le_of_not_lt fun hlt => ?_⟩
      have hfound := hbefore j hlt
      rw [decide_eq_true ⟨beq_iff_eq.mpr hpos.symm, herror⟩] at hfound
      cases hfound
  count := List.countP_eq_length_filter.symm

theorem answers_first (ds : Diagnostics) : ds.Answers (.first ds.first?) .first := by
  rw [first?]
  cases h : ds.sorted.find? Diagnostic.isError with
  | none =>
    refine .inl ⟨rfl, fun d hd => ?_⟩
    have hmem : d ∈ ds.sorted := (inSourceOrder_sorted ds).perm.mem_iff.mpr hd
    exact Bool.eq_false_iff.mpr (List.find?_eq_none.mp h d hmem)
  | some d => exact .inr ⟨_, isFirst_of_find? h, rfl⟩

end First

/-- One operation answers as it must, and adds what it records. -/
theorem step_answers (ds : Diagnostics) (op : Op) :
    ds.Answers (ds.step op).1 op ∧ (ds.step op).2 = ds ++ op.recorded?.toList := by
  cases op with
  | error | warning | advice => exact ⟨rfl, rfl⟩
  | all => exact ⟨rfl, (List.append_nil ds).symm⟩
  | sorted => exact ⟨⟨_, inSourceOrder_sorted ds, rfl⟩, (List.append_nil ds).symm⟩
  | first => exact ⟨answers_first ds, (List.append_nil ds).symm⟩
  | shown file => exact ⟨⟨_, inSourceOrder_sorted ds, rfl⟩, (List.append_nil ds).symm⟩

theorem run_from (ds : Diagnostics) (ops : List Op) :
    (ds.run ops).2 = ds ++ ops.filterMap Op.recorded? ∧ ds.Answered ops (ds.run ops).1 := by
  induction ops generalizing ds with
  | nil => exact ⟨(List.append_nil ds).symm, rfl, rfl⟩
  | cons op ops ih =>
    obtain ⟨hanswer, hnext⟩ := ds.step_answers op
    obtain ⟨hlast, hanswers⟩ := ih (ds.step op).2
    rw [hnext] at hlast hanswers
    refine ⟨?_, hanswer, ?_⟩
    · rw [run, hnext, hlast, List.append_assoc, List.filterMap_cons]
      cases op.recorded? <;> rfl
    · rw [hnext]
      exact hanswers

/-- A collection that starts empty holds what was recorded, in the order of recording: asking changes
nothing, and every question is answered on what was recorded before. There is one order of the source for
what a collection holds. -/
theorem run_answers (ops : List Op) :
    (run [] ops).2 = ops.filterMap Op.recorded? ∧ Answered [] ops (run [] ops).1 ∧
      ∀ ds : Diagnostics, ∃! entries, ds.InSourceOrder entries := by
  obtain ⟨hlast, hanswers⟩ := run_from [] ops
  exact ⟨hlast, hanswers, fun ds => ⟨ds.sorted, inSourceOrder_sorted ds, fun _ h => h.eq_sorted⟩⟩

example : Diagnostic.shown "cup.peak"
      (.advice ⟨2, 5⟩ "let x is never reassigned" "declare it with const") =
    "cup.peak: Line 2, col 5: warning: let x is never reassigned\n  hint: declare it with const" := rfl

end Diagnostics

end PeakLang
