import PeakLang.Proofs.Token.Order
import PeakLang.Proofs.Tree.Parser.Grammar

namespace PeakLang.Tree.Parser

/-- The faults of a source stand at tokens whose places never go back. -/
theorem parse_places (source : Text) :
    ∃ places : List Nat, places.Pairwise (· ≤ ·) ∧
      (places.map fun i => (Token.tokenize source)[i]?.map Token.pos) =
        (parse source).faults.map fun f => some f.2 := by
  obtain ⟨words, last, htokens, -, -⟩ := Scan.tokenize_complete source
  obtain ⟨taken, places, h⟩ := (program_regular (f := id)).records ⟨words, last, []⟩
    (nofun : State.Within none _)
  obtain ⟨faults, hfaults, hplaces⟩ := h.faults
  refine ⟨places, h.order, ?_⟩
  rw [parse, htokens, parseTokens, ofTokens_concat]
  exact hplaces.symm.trans (congrArg (List.map fun f => some f.2) hfaults.symm)

/-- A token does not stand before one whose place is no later. -/
theorem precedes_of_places {source : Text} {i j : Nat} {p q : Pos} (hle : i ≤ j)
    (hp : (Token.tokenize source)[i]?.map Token.pos = some p)
    (hq : (Token.tokenize source)[j]?.map Token.pos = some q) : q.precedes p = false := by
  obtain ⟨t, ht, rfl⟩ := Option.map_eq_some_iff.mp hp
  obtain ⟨u, hu, rfl⟩ := Option.map_eq_some_iff.mp hq
  obtain ⟨hi, rfl⟩ := List.getElem?_eq_some_iff.mp ht
  obtain ⟨hj, rfl⟩ := List.getElem?_eq_some_iff.mp hu
  rcases Nat.lt_or_eq_of_le hle with hlt | rfl
  · apply Pos.precedes_asymm
    exact List.pairwise_iff_getElem.mp (Token.tokenize_ordered source) i j hi hj hlt
  · exact Pos.precedes_irrefl _

theorem faults_pairwise (source : Text) :
    (parse source).faults.Pairwise fun f g => g.2.precedes f.2 = false := by
  obtain ⟨places, horder, hplaces⟩ := parse_places source
  have hpositions : ((parse source).faults.map fun f => some f.2).Pairwise fun p? q? =>
      ∀ p q, p? = some p → q? = some q → q.precedes p = false := by
    rw [← hplaces, List.pairwise_map]
    exact horder.imp fun hle p q hp hq => precedes_of_places hle hp hq
  rw [List.pairwise_map] at hpositions
  exact hpositions.imp fun h => h _ _ rfl rfl

theorem diagnostics_sorted (source : Text) :
    (parse source).diagnostics.sorted = (parse source).diagnostics := by
  apply List.mergeSort_of_pairwise
  rw [Result.diagnostics, List.pairwise_map]
  apply (faults_pairwise source).imp
  intro f g h
  exact congrArg (!·) h

theorem Result.isError_of_mem {r : Result} {d : Diagnostic} (h : d ∈ r.diagnostics) :
    d.isError = true := by
  obtain ⟨f, -, rfl⟩ := List.mem_map.mp h
  rfl

/-- Where the order of recording is that of the source, the first error is the one that was recorded
first. -/
theorem Result.first?_of_sorted {r : Result} (h : r.diagnostics.sorted = r.diagnostics) :
    r.diagnostics.first? = r.diagnostics.head?.map fun d => ⟨d, r.diagnostics.length⟩ := by
  have hcount : r.diagnostics.errorCount = r.diagnostics.length :=
    congrArg List.length (List.filter_eq_self.mpr fun _ => isError_of_mem)
  have hfirst : r.diagnostics.find? Diagnostic.isError = r.diagnostics.head? := by
    rw [← List.head?_filter, List.filter_eq_self.mpr fun _ => isError_of_mem]
  rw [Diagnostics.first?, h, hfirst, hcount]

/-- The tokens of a source stand one after another, and its faults are recorded at tokens whose places
never go back. So sorting the diagnostics changes nothing, and the error that a failed parse reports is
the one recorded first, with the number of all errors. -/
theorem recorded_in_order (source : Text) :
    ((Token.tokenize source).Pairwise fun t t' => t.pos.precedes t'.pos = true) ∧
      (∃ places : List Nat, places.Pairwise (· ≤ ·) ∧
        (places.map fun i => (Token.tokenize source)[i]?.map Token.pos) =
          (parse source).faults.map fun f => some f.2) ∧
      (parse source).diagnostics.sorted = (parse source).diagnostics ∧
      (parse source).diagnostics.first? =
        (parse source).diagnostics.head?.map fun d => ⟨d, (parse source).diagnostics.length⟩ :=
  ⟨Token.tokenize_ordered source, parse_places source, diagnostics_sorted source,
    Result.first?_of_sorted (diagnostics_sorted source)⟩

end PeakLang.Tree.Parser
