import Mathlib.Data.List.Nodup
import PeakLang.Proofs.Compile
import PeakLang.Proofs.Located

namespace PeakLang

namespace Token

/-- The tokens of two sources agree in kinds and literals. -/
def SameWords (ts ts' : List Token) : Prop :=
  (ts.map fun t => (t.kind, t.literal)) = ts'.map fun t => (t.kind, t.literal)

instance (ts ts' : List Token) : Decidable (SameWords ts ts') :=
  inferInstanceAs (Decidable ((ts.map fun t => (t.kind, t.literal)) = _))

/-- The position of the token with the same index among other tokens. -/
def counterpart (ts ts' : List Token) (p : Pos) : Pos :=
  ((ts'.map Token.pos)[(ts.map Token.pos).idxOf p]?).getD p

variable {ts ts' : List Token} {i j : Nat} {t t' u : Token}

theorem SameWords.getElem? (h : SameWords ts ts') (ht : ts[i]? = some t) :
    ∃ t', ts'[i]? = some t' ∧ t'.kind = t.kind ∧ t'.literal = t.literal := by
  have hword := congrArg (fun words => words[i]?) h
  simp only [List.getElem?_map, ht, Option.map_some] at hword
  obtain ⟨t', ht', hsame⟩ := Option.map_eq_some_iff.mp hword.symm
  rw [Prod.mk.injEq] at hsame
  exact ⟨t', ht', hsame⟩

theorem counterpart_eq (hnodup : (ts.map Token.pos).Nodup) (ht : ts[i]? = some t)
    (ht' : ts'[i]? = some t') : counterpart ts ts' t.pos = t'.pos := by
  obtain ⟨hi, rfl⟩ := List.getElem?_eq_some_iff.mp ht
  have hlength : i < (ts.map Token.pos).length := by rwa [List.length_map]
  have hindex : (ts.map Token.pos).idxOf ts[i].pos = i := by
    have hfound := hnodup.idxOf_getElem i hlength
    rwa [List.getElem_map] at hfound
  rw [counterpart, hindex, List.getElem?_map, ht']
  rfl

/-- The tokens of the one source, moved to their counterparts, are the tokens of the other. -/
theorem SameWords.map_moved (h : SameWords ts ts') (hnodup : (ts.map Token.pos).Nodup) :
    ts.map (Token.moved (counterpart ts ts')) = ts' := by
  have hlength : ts.length = ts'.length := by
    have hwords := congrArg List.length h
    rwa [List.length_map, List.length_map] at hwords
  refine List.ext_getElem? fun i => ?_
  rw [List.getElem?_map]
  cases ht : ts[i]? with
  | none =>
    rw [List.getElem?_eq_none_iff, hlength] at ht
    exact (List.getElem?_eq_none_iff.mpr ht).symm
  | some t =>
    obtain ⟨t', ht', hkind, hliteral⟩ := h.getElem? ht
    rw [ht', Option.map_some, Token.moved, counterpart_eq hnodup ht ht', ← hkind, ← hliteral]

/-- In tokens that stand one after another, positions are ordered as indices are. -/
theorem precedes_eq_decide (h : ts.Pairwise fun t u => t.pos.precedes u.pos = true)
    (ht : ts[i]? = some t) (hu : ts[j]? = some u) : t.pos.precedes u.pos = decide (i < j) := by
  obtain ⟨hi, rfl⟩ := List.getElem?_eq_some_iff.mp ht
  obtain ⟨hj, rfl⟩ := List.getElem?_eq_some_iff.mp hu
  rcases Nat.lt_trichotomy i j with hlt | rfl | hgt
  · rw [decide_eq_true hlt]
    exact List.pairwise_iff_getElem.mp h i j hi hj hlt
  · rw [decide_eq_false (Nat.lt_irrefl i)]
    exact Pos.precedes_irrefl _
  · rw [decide_eq_false (Nat.not_lt_of_gt hgt)]
    exact Pos.precedes_asymm (List.pairwise_iff_getElem.mp h j i hj hi hgt)

theorem IsAt.exists_getElem? {p : Pos} (h : IsAt ts p) :
    ∃ (i : Nat) (t : Token), ts[i]? = some t ∧ t.pos = p := by
  obtain ⟨t, ht, hpos⟩ := h
  obtain ⟨i, hi⟩ := List.mem_iff_getElem?.mp ht
  exact ⟨i, t, hi, hpos⟩

end Token

section Errors

variable (f : Pos → Pos)

/-- A diagnostic at another position. -/
def Diagnostic.moved (d : Diagnostic) : Diagnostic := { d with pos := f d.pos }

/-- A syntax error at another position. -/
def SyntaxError.moved (e : SyntaxError) : SyntaxError := ⟨e.first.moved f, e.count⟩

variable {f}

/-- A map that keeps the order of diagnostics keeps which error is the first, and how many there
are. -/
theorem Diagnostics.first?_moved {ds : Diagnostics}
    (h : ∀ a ∈ ds, ∀ b ∈ ds, (f b.pos).precedes (f a.pos) = b.pos.precedes a.pos) :
    Diagnostics.first? (ds.map (Diagnostic.moved f)) = (Diagnostics.first? ds).map (SyntaxError.moved f) := by
  have hsorted : Diagnostics.sorted (ds.map (Diagnostic.moved f)) =
      (Diagnostics.sorted ds).map (Diagnostic.moved f) := by
    refine (List.map_mergeSort fun a ha b hb => ?_).symm
    rw [Diagnostic.moved, Diagnostic.moved, h a ha b hb]
  have hcount : Diagnostics.errorCount (ds.map (Diagnostic.moved f)) = Diagnostics.errorCount ds := by
    rw [errorCount, errorCount, errors, errors, List.filter_map, List.length_map]
    rfl
  rw [first?, first?, hsorted, hcount, List.find?_map, Option.map_map, Option.map_map]
  rfl

theorem Diagnostics.mem_of_first? {ds : Diagnostics} {e : SyntaxError}
    (h : Diagnostics.first? ds = some e) : e.first ∈ ds := by
  obtain ⟨d, hd, rfl⟩ := Option.map_eq_some_iff.mp h
  exact (List.mergeSort_perm _ _).mem_iff.mp (List.mem_of_find?_eq_some hd)

end Errors

/-- Two errors that differ at most in where they stand: they are of one kind, say the same, count the
same number of syntax errors, and stand at tokens with the same index. -/
inductive CompileError.Corresponds (ts ts' : List Token) : CompileError → CompileError → Prop
  | parse {i : Nat} {t t' : Token} (d : Diagnostic) (count : Nat) (ht : ts[i]? = some t)
      (ht' : ts'[i]? = some t') :
      Corresponds ts ts' (.parse ⟨{ d with pos := t.pos }, count⟩)
        (.parse ⟨{ d with pos := t'.pos }, count⟩)
  | analyze {i : Nat} {t t' : Token} (fault : Analysis.Fault) (ht : ts[i]? = some t)
      (ht' : ts'[i]? = some t') :
      Corresponds ts ts' (.analyze ⟨fault, t.pos⟩) (.analyze ⟨fault, t'.pos⟩)
  | invalidTree (issues : List Typed.Issue) :
      Corresponds ts ts' (.invalidTree issues) (.invalidTree issues)
  | unknownStage (name : Text) : Corresponds ts ts' (.unknownStage name) (.unknownStage name)

namespace Compile

/-- What compiling does with a tree. -/
def ofTree (o : Options) (tree : Tree.Program) : Except CompileError Compiled :=
  if o.emit == .stage .parsed then .ok ⟨o.emit, tree.outline.render⟩
  else Id.run (ExceptT.run do return ⟨o.emit, ← @fromTree Id _ (fun _ => pure ()) tree o⟩)

theorem compile_eq_bind (source : Text) (o : Options) :
    compile source o = parse source >>= ofTree { o with emit := o.emit.orDefault } := by
  rw [compile, compileNoting]
  cases parse source with
  | error e => rfl
  | ok tree =>
    change _ = ofTree _ tree
    rw [ofTree]
    cases o.emit.orDefault == .stage .parsed <;> rfl

variable {o : Options} {tree : Tree.Program}

theorem ofTree_parsed (h : o.emit = .stage .parsed) :
    ofTree o tree = .ok ⟨o.emit, tree.outline.render⟩ := by
  rw [ofTree, h]
  rfl

theorem ofTree_eq_error {e : CompileError} (h : o.emit ≠ .stage .parsed)
    (hanalyze : analyze tree = .error e) : ofTree o tree = .error e := by
  rw [ofTree, if_neg (by simpa using h), fromTree, hanalyze]
  rfl

/-- Nothing fails after analysis, unless the stage is not known. -/
theorem ofTree_eq {program : Typed.Program} (h : o.emit ≠ .stage .parsed)
    (hanalyze : Analysis.analyze tree = .ok program) :
    ofTree o tree = (rendererFor o.emit).map fun r => ⟨o.emit, render r (rendered o program)⟩ := by
  have hvalid : requireValid (rendered o program) = .ok () := by
    rw [requireValid, issues_rendered (issues_of_analyze hanalyze)]
  have hfrom : @fromTree Id _ (fun _ => pure ()) tree o = do
      let r ← @fromTree.liftExcept Id _ _ (rendererFor o.emit)
      return render r (rendered o program) := by
    calc @fromTree Id _ (fun _ => pure ()) tree o
        = do
          if o.validate then @fromTree.liftExcept Id _ _ (requireValid (rendered o program))
          let r ← @fromTree.liftExcept Id _ _ (rendererFor o.emit)
          return render r (rendered o program) := by
          rw [fromTree, analyze_eq_ok_iff.mpr hanalyze, rendered]
          cases simplifies o <;> cases o.validate <;> rfl
      _ = _ := by
          rw [hvalid]
          cases o.validate <;> rfl
  rw [ofTree, if_neg (by simpa using h), hfrom]
  cases rendererFor o.emit <;> rfl

theorem rendererFor_eq_error {target : Target} {e : CompileError} (h : rendererFor target = .error e) :
    ∃ name, e = .unknownStage name := by
  cases target with
  | unknown name =>
    cases h
    exact ⟨name, rfl⟩
  | stage s =>
    cases s with
    | parsed =>
      cases h
      exact ⟨_, rfl⟩
    | analyzed | optimized | js => cases h

theorem parse_eq_error {source : Text} {e : SyntaxError}
    (h : (Tree.Parser.parse source).diagnostics.first? = some e) :
    parse source = .error (.parse e) := by
  rw [parse, Tree.Parser.Result.accepted, h]
  rfl

theorem parse_eq_ok {source : Text} (h : (Tree.Parser.parse source).diagnostics.first? = none) :
    parse source = .ok (Tree.Parser.parse source).program := by
  rw [parse, Tree.Parser.Result.accepted, h]
  rfl

end Compile

namespace Token.SameWords

variable {source source' : Text} (h : SameWords (tokenize source) (tokenize source'))

include h

/-- Counterparts stand in the same order. -/
theorem precedes_counterpart {p q : Pos} (hp : IsAt (tokenize source) p)
    (hq : IsAt (tokenize source) q) :
    (counterpart (tokenize source) (tokenize source') p).precedes
      (counterpart (tokenize source) (tokenize source') q) = p.precedes q := by
  obtain ⟨i, t, ht, rfl⟩ := hp.exists_getElem?
  obtain ⟨j, u, hu, rfl⟩ := hq.exists_getElem?
  obtain ⟨t', ht', -⟩ := h.getElem? ht
  obtain ⟨u', hu', -⟩ := h.getElem? hu
  rw [counterpart_eq (tokenize_nodup source) ht ht', counterpart_eq (tokenize_nodup source) hu hu',
    precedes_eq_decide (tokenize_ordered source') ht' hu',
    precedes_eq_decide (tokenize_ordered source) ht hu]

theorem parse_eq_moved :
    Tree.Parser.parse source' =
      (Tree.Parser.parse source).moved (counterpart (tokenize source) (tokenize source')) := by
  rw [← Tree.Parser.parse_moved, h.map_moved (tokenize_nodup source), Tree.Parser.parse]

theorem first?_eq_moved :
    (Tree.Parser.parse source').diagnostics.first? =
      (Tree.Parser.parse source).diagnostics.first?.map
        (SyntaxError.moved (counterpart (tokenize source) (tokenize source'))) := by
  have hmoved : (Tree.Parser.parse source').diagnostics = (Tree.Parser.parse source).diagnostics.map
      (Diagnostic.moved (counterpart (tokenize source) (tokenize source'))) := by
    rw [h.parse_eq_moved]
    simp only [Tree.Parser.Result.diagnostics, Tree.Parser.Result.moved, List.map_map]
    rfl
  have hat := Tree.Parser.diagnostics_isAt source
  rw [hmoved]
  apply Diagnostics.first?_moved
  intro a ha b hb
  exact h.precedes_counterpart (hat b hb) (hat a ha)

/-- An error at a token of the one source stands at the token with the same index of the other. -/
theorem exists_counterpart {p : Pos} (hp : IsAt (tokenize source) p) :
    ∃ (i : Nat) (t t' : Token), (tokenize source)[i]? = some t ∧ (tokenize source')[i]? = some t' ∧
      t.pos = p ∧ t'.pos = counterpart (tokenize source) (tokenize source') p := by
  obtain ⟨i, t, ht, rfl⟩ := hp.exists_getElem?
  obtain ⟨t', ht', -⟩ := h.getElem? ht
  exact ⟨i, t, t', ht, ht', rfl, (counterpart_eq (tokenize_nodup source) ht ht').symm⟩

/-- From the tree on, moving a tree to the counterparts of its tokens changes at most where the error
stands. -/
theorem ofTree_moved (o : Options) :
    (∃ compiled, Compile.ofTree o (Tree.Parser.parse source).program = .ok compiled ∧
        Compile.ofTree o (Tree.Parser.parse source').program = .ok compiled) ∨
      ∃ e e', Compile.ofTree o (Tree.Parser.parse source).program = .error e ∧
        Compile.ofTree o (Tree.Parser.parse source').program = .error e' ∧
        CompileError.Corresponds (tokenize source) (tokenize source') e e' := by
  have hprogram : (Tree.Parser.parse source').program = (Tree.Parser.parse source).program.moved
      (counterpart (tokenize source) (tokenize source')) := by
    rw [h.parse_eq_moved, Tree.Parser.Result.program_moved]
  have hmoved := Analysis.analyze_moved (f := counterpart (tokenize source) (tokenize source'))
    (Tree.Parser.parse source).program
  rw [← hprogram] at hmoved
  by_cases hparsed : o.emit = .stage .parsed
  · rw [Compile.ofTree_parsed hparsed, Compile.ofTree_parsed hparsed, hprogram,
      Tree.Program.outline_moved]
    exact .inl ⟨_, rfl, rfl⟩
  cases hanalyze : Analysis.analyze (Tree.Parser.parse source).program with
  | error e =>
    rw [hanalyze] at hmoved
    rw [Compile.ofTree_eq_error hparsed (congrArg (Except.mapError CompileError.analyze) hanalyze),
      Compile.ofTree_eq_error hparsed (congrArg (Except.mapError CompileError.analyze) hmoved)]
    obtain ⟨i, t, t', ht, ht', hpos, hpos'⟩ :=
      h.exists_counterpart (Analysis.analyze_error_isAt hanalyze)
    have hcorresponds := CompileError.Corresponds.analyze e.fault ht ht'
    rw [hpos, hpos'] at hcorresponds
    exact .inr ⟨_, _, rfl, rfl, hcorresponds⟩
  | ok program =>
    rw [hanalyze] at hmoved
    rw [Compile.ofTree_eq hparsed hanalyze, Compile.ofTree_eq hparsed hmoved]
    cases hrenderer : Compile.rendererFor o.emit with
    | ok r => exact .inl ⟨_, rfl, rfl⟩
    | error e =>
      obtain ⟨name, rfl⟩ := Compile.rendererFor_eq_error hrenderer
      exact .inr ⟨_, _, rfl, rfl, .unknownStage name⟩

end Token.SameWords

/-- Two sources whose tokens agree in kinds and literals compile to the same, or fail with errors that
differ at most in where they stand, which is at tokens with the same index. -/
theorem compile_sameWords {source source' : Text}
    (h : Token.SameWords (Token.tokenize source) (Token.tokenize source')) (o : Options) :
    (∃ compiled, compile source o = .ok compiled ∧ compile source' o = .ok compiled) ∨
      ∃ e e', compile source o = .error e ∧ compile source' o = .error e' ∧
        CompileError.Corresponds (Token.tokenize source) (Token.tokenize source') e e' := by
  rw [Compile.compile_eq_bind, Compile.compile_eq_bind]
  have hfirst := h.first?_eq_moved
  cases hdiagnostics : (Tree.Parser.parse source).diagnostics.first? with
  | none =>
    rw [hdiagnostics] at hfirst
    rw [Compile.parse_eq_ok hdiagnostics, Compile.parse_eq_ok hfirst]
    exact h.ofTree_moved _
  | some e =>
    rw [hdiagnostics] at hfirst
    rw [Compile.parse_eq_error hdiagnostics, Compile.parse_eq_error hfirst]
    have hat : Token.IsAt (Token.tokenize source) e.first.pos :=
      Tree.Parser.diagnostics_isAt source e.first (Diagnostics.mem_of_first? hdiagnostics)
    obtain ⟨i, t, t', ht, ht', hpos, hpos'⟩ := h.exists_counterpart hat
    have hcorresponds := CompileError.Corresponds.parse e.first e.count ht ht'
    rw [hpos, hpos'] at hcorresponds
    exact .inr ⟨_, _, rfl, rfl, hcorresponds⟩

/-- Two faults: a comparison that is chained, and a declaration without a name. -/
private def tight : Text := "let a=1<2<3 let =4"

/-- The same on several lines, with a comment. -/
private def airy : Text := "let a = // a cup\n  1 < 2\n  < 3\nlet\n  = 4\n"

theorem compile_sameWords_airy :
    Token.SameWords (Token.tokenize tight) (Token.tokenize airy) ∧
      ((∃ compiled, compile tight .default = .ok compiled ∧ compile airy .default = .ok compiled) ∨
        ∃ e e', compile tight .default = .error e ∧ compile airy .default = .error e' ∧
          CompileError.Corresponds (Token.tokenize tight) (Token.tokenize airy) e e') := by
  have hwords : Token.SameWords (Token.tokenize tight) (Token.tokenize airy) := by decide +kernel
  exact ⟨hwords, compile_sameWords hwords .default⟩

end PeakLang
