import PeakLang.Proofs.Analysis.Moved
import PeakLang.Proofs.Token.Order
import PeakLang.Proofs.Tree.Lint
import PeakLang.Proofs.Tree.Parser.Grammar

namespace PeakLang

variable {α : Type} {P : Pos → Prop}

/-- Everything in a list stands at positions with a property. -/
def AllAt (P : Pos → Prop) (xs : List (α × Pos)) : Prop := ∀ x ∈ xs, P x.2

namespace AllAt

@[simp]
theorem nil : AllAt P ([] : List (α × Pos)) := nofun

@[simp]
theorem cons {x : α × Pos} {xs : List (α × Pos)} : AllAt P (x :: xs) ↔ P x.2 ∧ AllAt P xs :=
  List.forall_mem_cons

@[simp]
theorem append {xs ys : List (α × Pos)} : AllAt P (xs ++ ys) ↔ AllAt P xs ∧ AllAt P ys :=
  List.forall_mem_append

theorem flatMap {β : Type} {g : β → List (α × Pos)} {xs : List β} :
    AllAt P (xs.flatMap g) ↔ ∀ x ∈ xs, AllAt P (g x) := by
  simp only [AllAt, List.mem_flatMap]
  constructor
  · intro h x hx y hy
    exact h y ⟨x, hx, hy⟩
  · rintro h y ⟨x, hx, hy⟩
    exact h x hx y hy

/-- What a map of positions leaves as it is stands where the map changes nothing. -/
theorem of_map_eq {f : Pos → Pos} {xs : List (α × Pos)} (h : (xs.map fun x => (x.1, f x.2)) = xs) :
    AllAt (fun p => f p = p) xs := by
  intro x hx
  have hsame := List.map_inj_left.mp (h.trans (List.map_id xs).symm) x hx
  exact congrArg Prod.snd hsame

end AllAt

namespace Tree

section Warnings

theorem Stmt.at_of_mem {body : List Stmt} (h : AllAt P (Stmt.placesOfAll body)) :
    ∀ s ∈ body, AllAt P s.places := by
  have hplaces : Stmt.placesOfAll body = body.flatMap Stmt.places :=
    eq_flatMap rfl (fun _ _ => rfl) body
  rwa [hplaces, AllAt.flatMap] at h

theorem Func.at_of_mem {methods : List Func} (h : AllAt P (Func.placesOfAll methods)) :
    ∀ m ∈ methods, AllAt P m.places := by
  have hplaces : Func.placesOfAll methods = methods.flatMap Func.places :=
    eq_flatMap rfl (fun _ _ => rfl) methods
  rwa [hplaces, AllAt.flatMap] at h

/-- What stands in a function: its name, its parameters and its body. -/
theorem Func.places_at {f : Func} (h : AllAt P f.places) :
    P f.pos ∧ (∀ p ∈ f.params, P p.pos) ∧ ∀ s ∈ f.body, AllAt P s.places := by
  obtain ⟨name, params, result, body, bodyPos, pos⟩ := f
  simp only [Func.places, AllAt.cons, AllAt.append, AllAt.flatMap] at h
  obtain ⟨hpos, ⟨hparams, -⟩, -, hbody⟩ := h
  exact ⟨hpos, fun p hp => (AllAt.cons.mp (hparams p hp)).1, Stmt.at_of_mem hbody⟩

theorem Stmt.blocks_at {deep : Bool} (s : Stmt) (h : AllAt P s.places) :
    ∀ t ∈ s.blocks deep, AllAt P t.places := by
  cases s with
  | function f =>
    cases deep with
    | false => exact List.forall_mem_nil _
    | true => exact (Func.places_at h).2.2
  | cls name fields methods =>
    simp only [Stmt.places, AllAt.cons, AllAt.append] at h
    cases deep with
    | false => exact List.forall_mem_nil _
    | true =>
      intro t ht
      obtain ⟨m, hm, ht⟩ := List.mem_flatMap.mp ht
      exact (Func.places_at (Func.at_of_mem h.2.2 m hm)).2.2 t ht
  | branch b =>
    obtain ⟨test, body, bodyPos, otherwise, pos⟩ := b
    simp only [Stmt.places, Branch.places, AllAt.cons, AllAt.append] at h
    obtain ⟨-, -, -, hbody, hotherwise⟩ := h
    refine List.forall_mem_append.mpr ⟨Stmt.at_of_mem hbody, ?_⟩
    cases otherwise with
    | nothing => exact List.forall_mem_nil _
    | block body => exact Stmt.at_of_mem (AllAt.cons.mp hotherwise).2
    | chain next => exact List.forall_mem_singleton.mpr hotherwise
  | loop | forEach =>
    simp only [Stmt.places, AllAt.cons, AllAt.append] at h
    exact Stmt.at_of_mem (by tauto)
  | declare | assign | bump | leave | ret | print | call => exact List.forall_mem_nil _

theorem Stmt.parts_at {deep : Bool} {body : List Stmt} (h : ∀ s ∈ body, AllAt P s.places) :
    ∀ s ∈ Stmt.partsOfAll deep body, AllAt P s.places := by
  intro t ht
  obtain ⟨s, hs, ht⟩ := List.mem_flatMap.mp ht
  exact Stmt.forall_parts Stmt.blocks_at (h s hs) t ht

/-- What a statement declares stands at its places. -/
theorem Stmt.declares_at {s : Stmt} (h : AllAt P s.places) :
    AllAt P s.classes ∧ AllAt P s.variables ∧ (∀ assignable, AllAt P (s.locals assignable)) ∧
      ∀ c ∈ s.callables, AllAt P c.2.places := by
  cases s with
  | declare name readOnly value pos =>
    have hpos := (AllAt.cons.mp h).1
    refine ⟨.nil, AllAt.cons.mpr ⟨hpos, .nil⟩, fun assignable v hv => ?_, List.forall_mem_nil _⟩
    rw [Stmt.locals] at hv
    split at hv
    · cases hv
    · rwa [List.mem_singleton.mp hv]
  | function f => exact ⟨.nil, .nil, fun _ => .nil, List.forall_mem_singleton.mpr h⟩
  | cls name fields methods =>
    simp only [Stmt.places, AllAt.cons, AllAt.append, AllAt.flatMap] at h
    obtain ⟨hpos, hfields, hmethods⟩ := h
    refine ⟨AllAt.cons.mpr ⟨hpos, .nil⟩, ?_, fun _ => .nil, ?_⟩
    · intro v hv
      obtain ⟨f, hf, rfl⟩ := List.mem_map.mp hv
      exact (AllAt.cons.mp (hfields f hf)).1
    · intro c hc
      obtain ⟨m, hm, rfl⟩ := List.mem_map.mp hc
      exact Func.at_of_mem hmethods m hm
  | forEach name namePos collection body =>
    simp only [Stmt.places, AllAt.cons] at h
    exact ⟨.nil, AllAt.cons.mpr ⟨h.2.1, .nil⟩, fun _ => .nil, List.forall_mem_nil _⟩
  | branch | loop | assign | bump | leave | ret | print | call =>
    exact ⟨.nil, .nil, fun _ => .nil, List.forall_mem_nil _⟩

theorem remarksOn_at {asks : α → Bool} {remark : α → Remark × Pos} {declared : List α}
    (h : ∀ d ∈ declared, P (remark d).2) : AllAt P (remarksOn asks remark declared) := by
  intro r hr
  obtain ⟨d, hd, rfl⟩ := List.mem_map.mp hr
  exact h d (List.mem_of_mem_filter hd)

/-- Every warning about a program stands at a node of it. -/
theorem Program.lint_at {program : Program} (h : AllAt P (Stmt.placesOfAll program)) :
    ∀ d ∈ program.lint, P d.pos := by
  intro d hd
  obtain ⟨remark, hremark, rfl⟩ := List.mem_map.mp hd
  have hparts (s : Stmt) (hs : s ∈ Stmt.partsOfAll true program) :=
    Stmt.declares_at (Stmt.parts_at (Stmt.at_of_mem h) s hs)
  have hcallable (c) (hc : c ∈ (Stmt.partsOfAll true program).flatMap Stmt.callables) :
      P c.2.pos ∧ (∀ p ∈ c.2.params, P p.pos) ∧ AllAt P c.2.locals := by
    obtain ⟨s, hs, hc⟩ := List.mem_flatMap.mp hc
    obtain ⟨hpos, hparams, hbody⟩ := Func.places_at ((hparts s hs).2.2.2 c hc)
    exact ⟨hpos, hparams, AllAt.flatMap.mpr fun t ht =>
      (Stmt.declares_at (Stmt.parts_at hbody t ht)).2.2.1 false⟩
  have hremarks : AllAt P (warranted (namesWritten program) (Stmt.partsOfAll true program)) := by
    simp only [warranted, warrantedByCallables, AllAt.append, AllAt.flatMap]
    refine ⟨⟨remarksOn_at ?_, remarksOn_at ?_,
      ⟨⟨⟨remarksOn_at ?_, remarksOn_at ?_⟩, ?_⟩, ?_⟩, ?_⟩, remarksOn_at ?_⟩
    · exact AllAt.flatMap.mpr fun s hs => (hparts s hs).1
    · exact AllAt.flatMap.mpr fun s hs => (hparts s hs).2.1
    · exact fun c hc => (hcallable c hc).1
    · exact fun c hc => (hcallable c hc).1
    · exact fun c hc => remarksOn_at (hcallable c hc).2.1
    · exact fun c hc => remarksOn_at (hcallable c hc).2.1
    · exact fun c hc => remarksOn_at (hcallable c hc).2.2
    · exact AllAt.flatMap.mpr fun s hs => (hparts s hs).2.2.1 true
  exact hremarks remark (program.remarks_perm.mem_iff.mp hremark)

end Warnings

end Tree

namespace Token

/-- A token stands at a position. -/
def IsAt (tokens : List Token) (p : Pos) : Prop := ∃ t ∈ tokens, t.pos = p

/-- The map of positions that keeps those of tokens, and no other. -/
def keepPositions (tokens : List Token) (p : Pos) : Pos :=
  if p ∈ tokens.map Token.pos then p else p.right

variable {tokens : List Token}

theorem keepPositions_of_mem {t : Token} (h : t ∈ tokens) : keepPositions tokens t.pos = t.pos :=
  if_pos (List.mem_map_of_mem h)

theorem isAt_of_keepPositions {p : Pos} (h : keepPositions tokens p = p) : IsAt tokens p := by
  rw [keepPositions] at h
  split at h
  case isTrue hmem => exact List.mem_map.mp hmem
  case isFalse =>
    have hcolumn : p.column + 1 = p.column := congrArg Pos.column h
    omega

theorem map_moved_keepPositions (tokens : List Token) :
    tokens.map (Token.moved (keepPositions tokens)) = tokens := by
  refine (List.map_congr_left fun t ht => ?_).trans (List.map_id tokens)
  rw [Token.moved, keepPositions_of_mem ht, id]

end Token

namespace Tree.Parser

theorem parse_moved (f : Pos → Pos) (source : Text) :
    parseTokens ((Token.tokenize source).map (Token.moved f)) = (parse source).moved f := by
  rw [parse]
  refine parseTokens_moved _ fun hnil => ?_
  obtain ⟨words, last, hcomplete, -⟩ := Scan.tokenize_complete source
  rw [hnil] at hcomplete
  exact absurd hcomplete.symm (by simp)

/-- What keeps the positions of the tokens keeps all positions that parsing gives. -/
theorem parse_moved_keepPositions (source : Text) :
    (parse source).moved (Token.keepPositions (Token.tokenize source)) = parse source := by
  rw [← parse_moved, Token.map_moved_keepPositions, parse]

theorem program_moved_keepPositions (source : Text) :
    (parse source).program.moved (Token.keepPositions (Token.tokenize source)) =
      (parse source).program := by
  rw [← Result.program_moved, parse_moved_keepPositions]

theorem faults_isAt (source : Text) :
    AllAt (Token.IsAt (Token.tokenize source)) (parse source).faults := by
  have hkept := congrArg Result.faults (parse_moved_keepPositions source)
  rw [Result.faults_moved] at hkept
  intro x hx
  exact Token.isAt_of_keepPositions (AllAt.of_map_eq hkept x hx)

theorem diagnostics_isAt (source : Text) :
    ∀ d ∈ (parse source).diagnostics, Token.IsAt (Token.tokenize source) d.pos := by
  intro d hd
  obtain ⟨x, hx, rfl⟩ := List.mem_map.mp hd
  exact faults_isAt source x hx

theorem places_isAt (source : Text) :
    AllAt (Token.IsAt (Token.tokenize source)) (Stmt.placesOfAll (parse source).program) := by
  have hplaces := congrArg Stmt.placesOfAll (program_moved_keepPositions source)
  rw [Program.moved, Stmt.placesOfAll_moved] at hplaces
  intro place hplace
  exact Token.isAt_of_keepPositions (AllAt.of_map_eq hplaces place hplace)

end Tree.Parser

namespace Analysis

theorem analyze_error_isAt {source : Text} {e : SemanticError}
    (h : analyze (Tree.Parser.parse source).program = .error e) :
    Token.IsAt (Token.tokenize source) e.pos := by
  have hmoved := analyze_moved (f := Token.keepPositions (Token.tokenize source))
    (Tree.Parser.parse source).program
  rw [Tree.Parser.program_moved_keepPositions, h] at hmoved
  have herror : e = e.moved _ := Except.error.inj hmoved
  exact Token.isAt_of_keepPositions (congrArg SemanticError.pos herror).symm

end Analysis

/-- Every node of the tree of a source, every syntax error, the fault that the analysis of the tree
finds and every warning about it stand at a token of the source, and none stands at line 0, column 0. -/
theorem reported_at_tokens (source : Text) :
    AllAt (Token.IsAt (Token.tokenize source))
        (Tree.Stmt.placesOfAll (Tree.Parser.parse source).program) ∧
      (∀ d ∈ (Tree.Parser.parse source).diagnostics, Token.IsAt (Token.tokenize source) d.pos) ∧
      (∀ e, Analysis.analyze (Tree.Parser.parse source).program = .error e →
        Token.IsAt (Token.tokenize source) e.pos) ∧
      (∀ d ∈ (Tree.Parser.parse source).program.lint, Token.IsAt (Token.tokenize source) d.pos) ∧
      ¬Token.IsAt (Token.tokenize source) ⟨0, 0⟩ := by
  refine ⟨Tree.Parser.places_isAt source, Tree.Parser.diagnostics_isAt source,
    fun e => Analysis.analyze_error_isAt, ?_, ?_⟩
  · exact Tree.Program.lint_at (Tree.Parser.places_isAt source)
  · rintro ⟨t, ht, hpos⟩
    have hline := (Token.tokenize_counted source t ht).line
    rw [hpos] at hline
    exact absurd hline (by decide)

/-- A loop with a fault in its body, where a name stands in for the value that is missing. -/
private def spilled : Text :=
  "ristretto Bean espresso [1] \x7b let x = )\n serve missing \x7d"

theorem reported_at_tokens_spilled :
    ((NodeKind.name, ⟨1, 39⟩) ∈ Tree.Stmt.placesOfAll (Tree.Parser.parse spilled).program ∧
        Token.IsAt (Token.tokenize spilled) ⟨1, 39⟩) ∧
      (∃ d ∈ (Tree.Parser.parse spilled).diagnostics, Token.IsAt (Token.tokenize spilled) d.pos) ∧
      (∃ e, Analysis.analyze (Tree.Parser.parse spilled).program = .error e ∧
        Token.IsAt (Token.tokenize spilled) e.pos) ∧
      ∃ d ∈ (Tree.Parser.parse spilled).program.lint, Token.IsAt (Token.tokenize spilled) d.pos := by
  obtain ⟨hplaces, hdiagnostics, hanalyze, hlint, -⟩ := reported_at_tokens spilled
  have hplace :
      (NodeKind.name, ⟨1, 39⟩) ∈ Tree.Stmt.placesOfAll (Tree.Parser.parse spilled).program := by
    decide +kernel
  have hdiagnostic : Diagnostic.error ⟨1, 39⟩ "expected expression, got RPAREN" ∈
      (Tree.Parser.parse spilled).diagnostics := by decide +kernel
  have hfails : (Analysis.analyze (Tree.Parser.parse spilled).program).isOk = false := by
    decide +kernel
  obtain ⟨e, herror⟩ : ∃ e, Analysis.analyze (Tree.Parser.parse spilled).program = .error e := by
    cases h : Analysis.analyze (Tree.Parser.parse spilled).program with
    | error e => exact ⟨e, rfl⟩
    | ok program =>
      rw [h] at hfails
      cases hfails
  have hwarning : Diagnostic.warning ⟨1, 11⟩ "variable 'Bean' should use lowerCamelCase naming" ∈
      (Tree.Parser.parse spilled).program.lint := by decide +kernel
  exact ⟨⟨hplace, hplaces _ hplace⟩, ⟨_, hdiagnostic, hdiagnostics _ hdiagnostic⟩,
    ⟨e, herror, hanalyze e herror⟩, _, hwarning, hlint _ hwarning⟩

end PeakLang
