import PeakLang.Proofs.Tree.Parser.Sound.Expr

namespace PeakLang.Tree.Parser

variable {s₀ s s₁ s' : State} {ws : List Token}

/-- What a run of the parser of statements comes to. -/
structure StmtRead (s : State) (r : Stmt) (s' : State) : Prop
    extends Yield Stmt.Derived Stmt.Legible s r s' where
  ends : r.endsBefore s'.current.kind = true
  head : s.current.kind = .lparen ∨ r.head = s.current.kind

theorem StmtRead.shorter {r : Stmt} (h : StmtRead s r s') : s'.ahead.length < s.ahead.length := by
  obtain ⟨ws, htaken, hderived⟩ := h.derived
  obtain ⟨rest, rfl⟩ := htaken.eq_cons hderived.ne_nil
  rw [htaken, List.cons_append, List.length_cons, List.length_append]
  omega

/-- A statement that may end before an opening parenthesis may end anywhere. -/
theorem endsBefore_of_lparen {r : Stmt} (h : r.endsBefore .lparen = true) (k : TokenKind) :
    r.endsBefore k = true := by
  cases r with
  | declare | assign | print | call => exact nomatch (show false = true from h)
  | ret value =>
    cases value with
    | none | some => exact nomatch (show false = true from h)
  | _ => rfl

section Parts

theorem typedName_sound {α : Type} {make : Text → TypeExpr → Pos → α} {L : α → Prop} {name : Text}
    {t : TypeExpr} {pos : Pos} (hs : s.Ready) (h : Reads typedName s (name, t, pos) s')
    (hmake : Lexeme.IsName name ∧ t.Legible → L (make name t pos)) :
    Yield (TypedName make) L s (make name t pos) s' := by
  simp only [typedName, reads_expect_bind, reads_bind (p := type), reads_pure, Prod.mk.injEq] at h
  obtain ⟨hname, hcolon, _, _, htype, ⟨rfl, rfl, rfl⟩, rfl⟩ := h
  obtain ⟨hsign, hready⟩ := hs.take hname
  obtain ⟨hsign', hready⟩ := hready.take hcolon
  obtain ⟨⟨⟨ws, htaken, hderived⟩, hlegible, hready⟩, -⟩ := type_sound hready htype
  exact ⟨⟨_, (hsign.trans hsign').trans htaken, .mk hname hcolon hderived⟩,
    hmake ⟨hs.isName hname, hlegible⟩, hready⟩

theorem param_sound {p : Param} (hs : s.Ready) (h : Reads param s p s') :
    Yield Param.Derived Param.Legible s p s' := by
  rw [param, reads_bind_pair] at h
  obtain ⟨name, ⟨t, pos⟩, s₁, hname, h⟩ := h
  obtain ⟨rfl, rfl⟩ := reads_pure.mp h
  exact typedName_sound hs hname id

theorem field_sound {f : Field} (hs : s.Ready) (h : Reads field s f s') :
    Yield Field.Derived Field.Legible s f s' := by
  rw [field, reads_bind_pair] at h
  obtain ⟨name, ⟨t, pos⟩, s₁, hname, h⟩ := h
  obtain ⟨rfl, rfl⟩ := reads_pure.mp h
  exact typedName_sound hs hname id

theorem paramsWith_sound (fuel : Nat) {ps : List Param} (hs : s.Ready)
    (h : Reads (paramsWith fuel) s ps s') :
    ps ≠ [] ∧ Yield (Separated Param.Derived) (fun ps => ∀ p ∈ ps, p.Legible) s ps s' := by
  induction fuel generalizing s ps with
  | zero => exact absurd h not_reads_exhausted
  | succ fuel ih =>
    exact Yield.separated (fun _ h => List.forall_mem_singleton.mpr h)
      (fun _ _ h h' => List.forall_mem_cons.mpr ⟨h, h'⟩) (param_sound hs)
      (fun hready hrest => ih hready hrest) h

theorem params_sound {ps : List Param} (hs : s.Ready) (h : Reads params s ps s') :
    Yield (Separated Param.Derived) (fun ps => ∀ p ∈ ps, p.Legible) s ps s' := by
  simp only [params, reads_at?_bind, reads_ite, reads_get_bind] at h
  obtain ⟨-, h⟩ | ⟨-, h⟩ := h
  · obtain ⟨rfl, rfl⟩ := reads_pure.mp h
    exact ⟨⟨[], .refl _, .none⟩, List.forall_mem_nil _, hs⟩
  · exact (paramsWith_sound _ hs h).2

theorem declaration_sound {readOnly : Bool} {r : Stmt} (hs : s.Ready)
    (hkind : s.current.kind = if readOnly then .kwConst else .kwLet)
    (h : Reads (declaration readOnly) s r s') : StmtRead s r s' := by
  simp only [declaration, reads_advance_bind, reads_expect_bind, reads_bind (p := expression),
    reads_pure] at h
  obtain ⟨hname, hassign, value, _, hvalue, rfl, rfl⟩ := h
  obtain ⟨htaken, hready⟩ := hs.take hkind (by cases readOnly <;> decide)
  have hlexeme := hready.isName hname
  obtain ⟨hsign, hready⟩ := hready.take hname
  obtain ⟨hsign', hready⟩ := hready.take hassign
  obtain ⟨⟨⟨ws, htaken', hderived⟩, hlegible, hready⟩, hends⟩ :=
    expression_sound hready hvalue
  have htaken := ((htaken.trans hsign).trans hsign').trans htaken'
  exact ⟨⟨⟨_, htaken, .declare hkind hname hassign hderived⟩, ⟨hlexeme, hlegible⟩, hready⟩, hends,
    .inr hkind.symm⟩

theorem returnStmt_sound {r : Stmt} (hs : s.Ready) (hkind : s.current.kind = .kwServe)
    (h : Reads returnStmt s r s') : StmtRead s r s' := by
  simp only [returnStmt, reads_advance_bind, reads_kind_bind, reads_ite] at h
  obtain ⟨htaken, hready⟩ := hs.take hkind
  obtain ⟨-, h⟩ | ⟨hstarts, h⟩ := h
  · simp only [reads_bind, reads_pure] at h
    obtain ⟨value, _, hvalue, rfl, rfl⟩ := h
    obtain ⟨⟨⟨ws, htaken', hderived⟩, hlegible, hready⟩, hends⟩ :=
      expression_sound hready hvalue
    refine ⟨⟨⟨_, htaken.trans htaken', .retValue hkind hderived⟩, ?_, hready⟩, hends,
      .inr hkind.symm⟩
    rintro e ⟨⟩
    exact hlegible
  · obtain ⟨rfl, rfl⟩ := reads_pure.mp h
    refine ⟨⟨⟨_, htaken, .ret hkind⟩, nofun, hready⟩, ?_, .inr hkind.symm⟩
    simpa [Stmt.endsBefore] using hstarts

/-- A statement that starts with an operand is read in full: what is no statement is a fault. -/
theorem simpleStmt_sound {r : Option Stmt} (hs : s.Ready) (h : Reads simpleStmt s r s') :
    ∃ st, r = some st ∧ StmtRead s st s' := by
  simp only [simpleStmt, reads_current_bind, reads_faultCount_bind, reads_bind (p := access)] at h
  obtain ⟨target, s₁, htarget, h⟩ := h
  obtain ⟨⟨⟨⟨ws, htaken, hderived⟩, hlegible, hready⟩, hends⟩, hleads⟩ :=
    access_sound hs htarget
  have hstart := htaken.startAt hderived.ne_nil
  have hhead : s.current.kind = .lparen ∨ target.head = s.current.kind := hleads.imp_right (·.2)
  rw [simpleStmtFrom, reads_current_bind] at h
  split at h
  case h_1 op hop =>
    simp only [reads_advance_bind, reads_pure] at h
    obtain ⟨rfl, rfl⟩ := h
    have hsign := BumpOp.eq_token hop
    obtain ⟨htaken', hready⟩ := hready.take hsign (by cases op <;> decide)
    exact ⟨_, rfl, ⟨⟨_, htaken.trans htaken', .bump hderived hsign hstart⟩, hlegible, hready⟩, rfl, hhead⟩
  case h_2 hbump =>
    simp only [reads_ite, beq_iff_eq] at h
    obtain ⟨hassign, h⟩ | ⟨hassign, h⟩ := h
    · simp only [reads_advance_bind, reads_bind (p := expression), reads_pure] at h
      obtain ⟨value, _, hvalue, rfl, rfl⟩ := h
      obtain ⟨hsign, hready⟩ := hready.take hassign
      obtain ⟨⟨⟨ws', htaken', hderived'⟩, hlegible', hready⟩, hends⟩ :=
        expression_sound hready hvalue
      exact ⟨_, rfl, ⟨⟨_, (htaken.trans hsign).trans htaken',
        .assign hderived hassign hderived' hstart⟩, ⟨hlegible, hlegible'⟩, hready⟩, hends,
        hhead⟩
    · split at h
      case h_1 callee args callPos =>
        obtain ⟨rfl, rfl⟩ := reads_pure.mp h
        refine ⟨_, rfl, ⟨⟨_, htaken, .call hderived hstart⟩, hlegible, hready⟩, ?_, hhead⟩
        simp [Stmt.endsBefore, hends, hassign, hbump]
      case h_2 =>
        rw [reads_faultCount_bind, htarget.2, if_pos (Nat.le_refl _), reads_bind] at h
        simp only [not_reads_unexpected, false_and, exists_false] at h

/-- A field is read without a fault only if there is no method yet. -/
theorem reads_checkFieldFirst {cls : Text} {methods : List Func} {u : Unit}
    (h : Reads (checkFieldFirst cls methods) s u s') : methods = [] ∧ s' = s := by
  rw [checkFieldFirst, reads_current_bind, reads_ite] at h
  obtain ⟨-, h⟩ | ⟨hempty, h⟩ := h
  · exact absurd h not_reads_fault
  · refine ⟨?_, (reads_pure.mp h).2.symm⟩
    simpa using hempty

end Parts

theorem Func.legibleAll_append_singleton {fs : List Func} {f : Func}
    (hfs : Func.LegibleAll fs) (hf : f.Legible) : Func.LegibleAll (fs ++ [f]) := by
  induction fs with
  | nil => exact ⟨hf, trivial⟩
  | cons g gs ih => exact ⟨hfs.1, ih hfs.2⟩

section Statements

-- The continuations of a statement are long, and each step of one is a class instance.
set_option synthInstance.maxSize 1024

/-- What a run of the parser of several statements comes to. -/
structure StmtsRead (s : State) (body : List Stmt) (s' : State) : Prop
    extends Yield (Repeated Stmt.Derived) Stmt.LegibleAll s body s' where
  head : ∀ first ∈ body.head?, s.current.kind = .lparen ∨ first.head = s.current.kind

theorem StmtsRead.nil (hs : s.Ready) : StmtsRead s [] s :=
  ⟨⟨⟨[], .refl _, .none⟩, trivial, hs⟩, nofun⟩

/-- A statement goes before statements that are read where it ends. -/
theorem StmtRead.cons {r : Stmt} {rest : List Stmt} (hr : StmtRead s r s₁)
    (hrest : StmtsRead s₁ rest s') : StmtsRead s (r :: rest) s' := by
  obtain ⟨⟨⟨ws, htaken, hderived⟩, hlegible, -⟩, hends, hhead⟩ := hr
  obtain ⟨⟨⟨ws', htaken', hderived'⟩, hlegible', hready⟩, hhead'⟩ := hrest
  refine ⟨⟨⟨_, htaken.trans htaken', .more hderived hderived'⟩,
    ⟨hlegible, fun next hnext => ?_, hlegible'⟩, hready⟩, ?_⟩
  · obtain hparen | hfirst := hhead' next hnext
    · exact endsBefore_of_lparen (hparen ▸ hends) _
    · exact hfirst ▸ hends
  · rintro _ ⟨⟩
    exact hhead

/-- What a run of the parser of members comes to: the members so far have the fields first, since no
field is read after a method. -/
structure MembersRead (s : State) (fields : List Field) (methods : List Func) (s' : State) : Prop where
  derived : ∃ ws ws', Taken s (ws ++ ws') s' ∧ Repeated Field.Derived ws fields ∧
    Repeated Func.Derived ws' methods
  fields : ∀ f ∈ fields, f.Legible
  methods : Func.LegibleAll methods
  ready : s'.Ready

/-- The parsers of statements that have some fuel read legible statements. -/
structure StatementsSound (fuel : Nat) : Prop where
  statement : ∀ {s s' r}, s.Ready → Reads (statementWith fuel) s r s' →
    ∃ st, r = some st ∧ StmtRead s st s'
  function : ∀ {s s' f}, s.Ready → s.current.kind = .kwItem →
    Reads (functionWith fuel) s f s' → Yield Func.Derived Func.Legible s f s'
  members : ∀ {s₀ s s' cls fields fields' methods methods'}, MembersRead s₀ fields methods s →
    Reads (membersWith fuel cls fields methods) s (fields', methods') s' →
    MembersRead s₀ fields' methods' s'
  branch : ∀ {s s' b}, s.Ready → s.current.kind = .kwBrew →
    Reads (branchWith fuel) s b s' → Yield Branch.Derived Branch.Legible s b s'
  otherwise : ∀ {s s' o}, s.Ready → Reads (otherwiseWith fuel) s o s' →
    Yield Otherwise.Derived Otherwise.Legible s o s'
  block : ∀ {s s' b}, s.Ready → Reads (blockWith fuel) s b s' →
    Yield BlockDerived (fun b => Stmt.LegibleAll b.1) s b s'
  statements : ∀ {s s' body}, s.Ready → Reads (statementsWith fuel) s body s' → StmtsRead s body s'

namespace StatementsSound

variable {fuel : Nat}

theorem statement_succ (ih : StatementsSound fuel) {r : Option Stmt} (hs : s.Ready)
    (h : Reads (statementWith (fuel + 1)) s r s') :
    ∃ st, r = some st ∧ StmtRead s st s' := by
  rw [statementWith, statementRule, reads_current_bind] at h
  split at h
  case h_1 hkind | h_2 hkind =>
    simp only [reads_bind, reads_pure] at h
    obtain ⟨st, _, hread, rfl, rfl⟩ := h
    exact ⟨st, rfl, declaration_sound hs (by exact hkind) hread⟩
  case h_3 hkind =>
    simp only [reads_bind, reads_pure] at h
    obtain ⟨f, _, hread, rfl, rfl⟩ := h
    obtain ⟨⟨ws, htaken, hderived⟩, hlegible, hready⟩ :=
      ih.function hs hkind hread
    exact ⟨_, rfl, ⟨⟨ws, htaken, .function hderived⟩, hlegible, hready⟩, rfl,
      .inr hkind.symm⟩
  case h_4 hkind =>
    simp only [reads_advance_bind, reads_expect_bind, reads_bind_pair, reads_pure] at h
    obtain ⟨hname, hopen, fields, methods, s₁, hmembers, hclose, rfl, rfl⟩ := h
    obtain ⟨htaken, hready⟩ := hs.take hkind
    have hlexeme := hready.isName hname
    obtain ⟨hsign, hready⟩ := hready.take hname
    obtain ⟨hsign', hready⟩ := hready.take hopen
    obtain ⟨⟨wf, wm, htaken', hderived, hderived'⟩, hfields, hmethods, hready⟩ :=
      ih.members ⟨⟨[], [], .refl _, .none, .none⟩, List.forall_mem_nil _, trivial, hready⟩
        hmembers
    obtain ⟨hsign'', hready⟩ := hready.take hclose
    have htaken := (((htaken.trans hsign).trans hsign').trans htaken').trans hsign''
    exact ⟨_, rfl, ⟨⟨_, htaken, .cls hkind hname hopen hderived hderived' hclose⟩,
      ⟨hlexeme, hfields, hmethods⟩, hready⟩, rfl, .inr hkind.symm⟩
  case h_5 hkind =>
    simp only [reads_bind, reads_pure] at h
    obtain ⟨b, _, hread, rfl, rfl⟩ := h
    obtain ⟨⟨ws, htaken, hderived⟩, hlegible, hready⟩ :=
      ih.branch hs hkind hread
    exact ⟨_, rfl, ⟨⟨ws, htaken, .branch hderived⟩, hlegible, hready⟩, rfl,
      .inr hkind.symm⟩
  case h_6 hkind =>
    simp only [reads_advance_bind, reads_bind (p := expression), reads_bind_pair, reads_pure] at h
    obtain ⟨test, s₁, htest, body, bodyPos, _, hbody, rfl, rfl⟩ := h
    obtain ⟨htaken, hready⟩ := hs.take hkind
    obtain ⟨⟨⟨ws, htaken', hderived⟩, hlegible, hready⟩, -⟩ :=
      expression_sound hready htest
    obtain ⟨⟨ws', htaken'', hblock⟩, hlegible', hready⟩ :=
      ih.block hready hbody
    exact ⟨_, rfl, ⟨⟨_, (htaken.trans htaken').trans htaken'', .loop hkind hderived hblock⟩,
      ⟨hlegible, hlegible'⟩, hready⟩, rfl, .inr hkind.symm⟩
  case h_7 hkind =>
    simp only [reads_advance_bind, reads_expect_bind, reads_bind (p := expression), reads_bind_pair,
      reads_pure] at h
    obtain ⟨hname, hin, collection, s₁, hcollection, body, bodyPos, _, hbody, rfl, rfl⟩ := h
    obtain ⟨htaken, hready⟩ := hs.take hkind
    have hlexeme := hready.isName hname
    obtain ⟨hsign, hready⟩ := hready.take hname
    obtain ⟨hsign', hready⟩ := hready.take hin
    obtain ⟨⟨⟨ws, htaken', hderived⟩, hlegible, hready⟩, -⟩ :=
      expression_sound hready hcollection
    obtain ⟨⟨ws', htaken'', hblock⟩, hlegible', hready⟩ :=
      ih.block hready hbody
    have htaken := (((htaken.trans hsign).trans hsign').trans htaken').trans htaken''
    exact ⟨_, rfl, ⟨⟨_, htaken, .forEach hkind hname hin hderived hblock⟩,
      ⟨hlexeme, hlegible, hlegible'⟩, hready⟩, rfl, .inr hkind.symm⟩
  case h_8 hkind =>
    simp only [reads_advance_bind, reads_pure] at h
    obtain ⟨rfl, rfl⟩ := h
    obtain ⟨htaken, hready⟩ := hs.take hkind
    exact ⟨_, rfl, ⟨⟨_, htaken, .leave hkind⟩, trivial, hready⟩, rfl, .inr hkind.symm⟩
  case h_9 hkind =>
    simp only [reads_bind, reads_pure] at h
    obtain ⟨st, _, hread, rfl, rfl⟩ := h
    exact ⟨st, rfl, returnStmt_sound hs hkind hread⟩
  case h_10 hkind =>
    simp only [reads_advance_bind, reads_bind (p := expression), reads_pure] at h
    obtain ⟨value, _, hvalue, rfl, rfl⟩ := h
    obtain ⟨htaken, hready⟩ := hs.take hkind
    obtain ⟨⟨⟨ws, htaken', hderived⟩, hlegible, hready⟩, hends⟩ :=
      expression_sound hready hvalue
    exact ⟨_, rfl, ⟨⟨_, htaken.trans htaken', .print hkind hderived⟩, hlegible, hready⟩,
      hends, .inr hkind.symm⟩
  case h_11 => exact simpleStmt_sound hs h

theorem function_succ (ih : StatementsSound fuel) {f : Func} (hs : s.Ready)
    (hkind : s.current.kind = .kwItem)
    (h : Reads (functionWith (fuel + 1)) s f s') : Yield Func.Derived Func.Legible s f s' := by
  simp only [functionWith, functionRule, reads_advance_bind, reads_expect_bind, reads_bind (p := params),
    reads_accept_bind, if_true, Bool.false_eq_true, if_false, reads_pure_bind, reads_bind_pair,
    reads_pure] at h
  obtain ⟨hname, hopen, ps, s₁, hparams, hclose, h⟩ := h
  obtain ⟨htaken, hready⟩ := hs.take hkind
  have hlexeme := hready.isName hname
  obtain ⟨hsign, hready⟩ := hready.take hname
  obtain ⟨hsign', hready⟩ := hready.take hopen
  obtain ⟨⟨ws, htaken', hderived⟩, hlegible, hready⟩ := params_sound hready hparams
  obtain ⟨hsign'', hready⟩ := hready.take hclose
  have htaken := (((htaken.trans hsign).trans hsign').trans htaken').trans hsign''
  obtain ⟨harrow, h⟩ | ⟨-, body, bodyPos, _, hbody, rfl, rfl⟩ := h
  · simp only [reads_bind (p := some <$> type), reads_map, reads_bind_pair, reads_pure] at h
    obtain ⟨_, s₂, ⟨t, htype, rfl⟩, body, bodyPos, _, hbody, rfl, rfl⟩ := h
    obtain ⟨hsign, hready⟩ := hready.take harrow
    obtain ⟨⟨⟨ws', htaken', hresult⟩, hlegible', hready⟩, -⟩ := type_sound hready htype
    obtain ⟨⟨ws'', htaken'', hblock⟩, hlegible'', hready⟩ :=
      ih.block hready hbody
    refine ⟨⟨_, (htaken.trans (hsign.trans htaken')).trans htaken'',
      .mk hkind hname hopen hderived hclose (.some harrow hresult) hblock⟩,
      ⟨hlexeme, hlegible, ?_, hlegible''⟩, hready⟩
    rintro _ ⟨⟩
    exact hlegible'
  · obtain ⟨⟨ws'', htaken'', hblock⟩, hlegible'', hready⟩ :=
      ih.block hready hbody
    exact ⟨⟨_, (htaken.trans (.refl _)).trans htaken'',
      .mk hkind hname hopen hderived hclose .none hblock⟩, ⟨hlexeme, hlegible, nofun, hlegible''⟩,
      hready⟩

theorem branch_succ (ih : StatementsSound fuel) {b : Branch} (hs : s.Ready)
    (hkind : s.current.kind = .kwBrew)
    (h : Reads (branchWith (fuel + 1)) s b s') : Yield Branch.Derived Branch.Legible s b s' := by
  simp only [branchWith, branchRule, reads_advance_bind, reads_bind (p := expression), reads_bind_pair,
    reads_bind (p := otherwiseWith fuel), reads_pure] at h
  obtain ⟨test, s₁, htest, body, bodyPos, s₂, hbody, otherwise, _, hotherwise, rfl, rfl⟩ := h
  obtain ⟨htaken, hready⟩ := hs.take hkind
  obtain ⟨⟨⟨ws, htaken', hderived⟩, hlegible, hready⟩, -⟩ := expression_sound hready htest
  obtain ⟨⟨ws', htaken'', hblock⟩, hlegible', hready⟩ :=
    ih.block hready hbody
  obtain ⟨⟨ws'', hlast, hrest⟩, hlegible'', hready⟩ :=
    ih.otherwise hready hotherwise
  exact ⟨⟨_, ((htaken.trans htaken').trans htaken'').trans hlast, .mk hkind hderived hblock hrest⟩,
    ⟨hlegible, hlegible', hlegible''⟩, hready⟩

theorem otherwise_succ (ih : StatementsSound fuel) {o : Otherwise} (hs : s.Ready)
    (h : Reads (otherwiseWith (fuel + 1)) s o s') :
    Yield Otherwise.Derived Otherwise.Legible s o s' := by
  simp only [otherwiseWith, otherwiseRule, reads_accept_bind, if_true, Bool.false_eq_true,
    if_false, reads_at?_bind, reads_ite, beq_iff_eq] at h
  obtain ⟨hpull, h⟩ | ⟨-, h⟩ := h
  · obtain ⟨htaken, hready⟩ := hs.take hpull
    obtain ⟨hkind, h⟩ | ⟨-, h⟩ := h
    · simp only [reads_bind, reads_pure] at h
      obtain ⟨next, _, hnext, rfl, rfl⟩ := h
      obtain ⟨⟨ws, htaken', hderived⟩, hlegible, hready⟩ :=
        ih.branch hready hkind hnext
      exact ⟨⟨_, htaken.trans htaken', .chain hpull hderived⟩, hlegible, hready⟩
    · simp only [reads_bind_pair, reads_pure] at h
      obtain ⟨body, bodyPos, _, hbody, rfl, rfl⟩ := h
      obtain ⟨⟨ws, htaken', hblock⟩, hlegible, hready⟩ :=
        ih.block hready hbody
      exact ⟨⟨_, htaken.trans htaken', .block hpull hblock⟩, hlegible, hready⟩
  · obtain ⟨rfl, rfl⟩ := reads_pure.mp h
    exact ⟨⟨[], .refl _, .nothing⟩, trivial, hs⟩

theorem block_succ (ih : StatementsSound fuel) {b : List Stmt × Pos} (hs : s.Ready)
    (h : Reads (blockWith (fuel + 1)) s b s') :
    Yield BlockDerived (fun b => Stmt.LegibleAll b.1) s b s' := by
  simp only [blockWith, blockRule, reads_expect_bind, reads_bind (p := statementsWith fuel), reads_pure] at h
  obtain ⟨hopen, body, s₁, hbody, hclose, rfl, rfl⟩ := h
  obtain ⟨htaken, hready⟩ := hs.take hopen
  obtain ⟨⟨⟨ws, htaken', hderived⟩, hlegible, hready⟩, -⟩ :=
    ih.statements hready hbody
  obtain ⟨hsign, hready⟩ := hready.take hclose
  exact ⟨⟨_, (htaken.trans htaken').trans hsign, .mk hopen hderived hclose⟩, hlegible, hready⟩

theorem members_succ (ih : StatementsSound fuel) {cls : Text} {fields fields' : List Field}
    {methods methods' : List Func} (hread : MembersRead s₀ fields methods s)
    (h : Reads (membersWith (fuel + 1) cls fields methods) s (fields', methods') s') :
    MembersRead s₀ fields' methods' s' := by
  rw [membersWith, membersRule, reads_current_bind] at h
  split at h
  case h_1 | h_2 =>
    rw [reads_pure, Prod.mk.injEq] at h
    obtain ⟨⟨rfl, rfl⟩, rfl⟩ := h
    exact hread
  case h_3 =>
    simp only [reads_bind] at h
    obtain ⟨_, s₁, hcheck, next, s₂, hnext, h⟩ := h
    obtain ⟨rfl, rfl⟩ := reads_checkFieldFirst hcheck
    obtain ⟨⟨ws, ws', htaken, hderived, hnone⟩, hfields, hmethods, hready⟩ := hread
    obtain rfl := hnone.eq_nil
    obtain ⟨⟨wn, htaken', hfield⟩, hlegible, hready⟩ := field_sound hready hnext
    refine ih.members ⟨⟨_, [], ?_, hderived.snoc hfield, .none⟩, ?_, hmethods, hready⟩
      h
    · simpa only [List.append_nil] using htaken.trans htaken'
    · exact List.forall_mem_append.mpr ⟨hfields, List.forall_mem_singleton.mpr hlegible⟩
  case h_4 hkind =>
    rw [reads_bind] at h
    obtain ⟨next, s₁, hnext, h⟩ := h
    obtain ⟨⟨ws, ws', htaken, hderived, hderived'⟩, hfields, hmethods, hready⟩ := hread
    obtain ⟨⟨wn, htaken', hmethod⟩, hlegible, hready⟩ :=
      ih.function hready hkind hnext
    refine ih.members ⟨⟨ws, _, ?_, hderived, hderived'.snoc hmethod⟩, hfields,
      Func.legibleAll_append_singleton hmethods hlegible, hready⟩ h
    simpa only [List.append_assoc] using htaken.trans htaken'
  case h_5 => simp only [reads_bind, not_reads_unexpected, false_and, exists_false] at h

theorem statements_succ (ih : StatementsSound fuel) {body : List Stmt} (hs : s.Ready)
    (h : Reads (statementsWith (fuel + 1)) s body s') :
    StmtsRead s body s' := by
  obtain ⟨-, rfl, rfl⟩ | ⟨-, _, t, hfirst, rest, rfl, hrest⟩ := reads_statementsRule.mp h
  · exact .nil hs
  · obtain ⟨_, _, hstatement, hkept⟩ := reads_attempt hfirst
    obtain ⟨first, rfl, hread⟩ := ih.statement hs hstatement
    obtain ⟨rfl, rfl⟩ := hkept hread.shorter
    exact hread.cons (ih.statements hread.ready hrest)

end StatementsSound

theorem statements_sound (fuel : Nat) : StatementsSound fuel := by
  induction fuel with
  | zero =>
    constructor
    all_goals
      intros
      exact absurd ‹Reads _ _ _ _› not_reads_exhausted
  | succ fuel ih =>
    exact ⟨ih.statement_succ, ih.function_succ, ih.members_succ, ih.branch_succ, ih.otherwise_succ,
      ih.block_succ, ih.statements_succ⟩

theorem statement_sound {r : Option Stmt} (hs : s.Ready) (h : Reads statement s r s') :
    ∃ st, r = some st ∧ StmtRead s st s' := by
  rw [statement, reads_get_bind] at h
  exact (statements_sound _).statement hs h

/-- The loop over a program goes on to the end. -/
theorem programWith_sound (fuel : Nat) {p : Program} (hs : s.Ready)
    (h : Reads (programWith fuel) s p s') :
    StmtsRead s p s' ∧ s'.ahead = [] := by
  induction fuel generalizing s p with
  | zero => exact absurd h not_reads_exhausted
  | succ fuel ih =>
    obtain ⟨heof, rfl, rfl⟩ | ⟨-, _, t, hfirst, rest, rfl, hrest⟩ := reads_statementsRule.mp h
    · refine ⟨.nil hs, ?_⟩
      cases hahead : s'.ahead with
      | nil => rfl
      | cons token rest =>
        have hcurrent : s'.current = token := by rw [State.current, hahead]; rfl
        have hne := (hs.tokens token (by rw [hahead]; exact List.mem_cons_self)).1
        exact absurd (hcurrent ▸ beq_iff_eq.mp heof) hne
    · obtain ⟨_, _, hstatement, hkept⟩ := reads_attempt hfirst
      obtain ⟨first, rfl, hread⟩ := statement_sound hs hstatement
      obtain ⟨rfl, rfl⟩ := hkept hread.shorter
      obtain ⟨hrest, hend⟩ := ih hread.ready hrest
      exact ⟨hread.cons hrest, hend⟩

/-- A program that is read without a fault is legible, and it is derived from all the tokens. -/
theorem program_sound {p : Program} (hs : s.Ready) (h : Reads program s p s') :
    p.Derived s.ahead ∧ Stmt.LegibleAll p := by
  rw [program, reads_get_bind] at h
  obtain ⟨⟨⟨⟨ws, htaken, hderived⟩, hlegible, -⟩, -⟩, hend⟩ :=
    programWith_sound _ hs h
  rw [Taken, hend, List.append_nil] at htaken
  exact ⟨htaken ▸ hderived, hlegible⟩

end Statements

end PeakLang.Tree.Parser
