import PeakLang.Proofs.Tree.Parts
import PeakLang.Tree.Lint

namespace PeakLang.Tree

section Declarations

/-- The variables that a statement declares, the fields of a class among them. -/
def Stmt.variables : Stmt → List (Text × Pos)
  | .declare name _ _ pos => [(name, pos)]
  | .cls _ fields _ _ => fields.map fun f => (f.name, f.pos)
  | .forEach name namePos _ _ _ _ => [(name, namePos)]
  | _ => []

/-- The class that a statement declares. -/
def Stmt.classes : Stmt → List (Text × Pos)
  | .cls name _ _ pos => [(name, pos)]
  | _ => []

/-- The functions and methods that a statement declares, with the names that messages call them. -/
def Stmt.callables : Stmt → List (Text × Func)
  | .function f => [(f.name, f)]
  | .cls name _ methods _ => methods.map fun m => (name ++ "." ++ m.name, m)
  | _ => []

/-- The variable that a statement declares, if it may be assigned where asked for. -/
def Stmt.locals (assignable : Bool) : Stmt → List (Text × Pos)
  | .declare name readOnly _ pos => if assignable && readOnly then [] else [(name, pos)]
  | _ => []

/-- The expressions that a statement itself reads. The name that an assignment sets is not read. -/
def Stmt.readExprs : Stmt → List Expr
  | .declare _ _ value _ | .print value _ | .assign (.name _ _) value _ => [value]
  | .assign target value _ => [target, value]
  | .bump _ target _ => [target]
  | .branch (.mk test _ _ _ _) | .loop test _ _ _ => [test]
  | .forEach _ _ collection _ _ _ => [collection]
  | .ret value _ => value.toList
  | .call callee args callPos _ => [.call callee args callPos]
  | .function _ | .cls _ _ _ _ | .leave _ => []

/-- The names in some expressions, at any depth. -/
def namesIn (es : List Expr) : Names :=
  (es.flatMap Expr.parts).flatMap fun
    | .name n _ => [n]
    | _ => []

/-- The names that a statement itself reads. -/
def Stmt.ownReads (s : Stmt) : Names := namesIn s.readExprs

/-- The name that a statement itself assigns or steps. -/
def Stmt.ownWrites : Stmt → Names
  | .assign (.name n _) _ _ | .bump _ (.name n _) _ => [n]
  | _ => []

/-- Whether the first character of a name is of a class, and the name holds no underscore. -/
def Naming.Follows (first : Char → Bool) (name : Text) : Prop :=
  ∃ r rest, Rune.decode name = r :: rest ∧ first r.char = true ∧ 95 ∉ name

theorem Naming.startsWith_iff {first : Char → Bool} {name : Text} :
    startsWith first name = true ↔ Follows first name := by
  unfold startsWith Follows
  split <;> simp [*]

instance (first : Char → Bool) (name : Text) : Decidable (Naming.Follows first name) :=
  decidable_of_iff _ Naming.startsWith_iff

theorem Naming.startsWith_eq (first : Char → Bool) (name : Text) :
    startsWith first name = decide (Follows first name) := by
  rw [Bool.eq_iff_iff, decide_eq_true_iff]
  exact startsWith_iff

theorem Naming.isLowerCamelCase_eq (name : Text) :
    isLowerCamelCase name = decide (Follows Letter.isLower name) := startsWith_eq _ _

theorem Naming.isUpperCamelCase_eq (name : Text) :
    isUpperCamelCase name = decide (Follows Letter.isUpper name) := startsWith_eq _ _

end Declarations

section Walks

theorem Expr.readsOfAll_eq (es : List Expr) : Expr.readsOfAll es = es.flatMap Expr.reads :=
  eq_flatMap rfl (fun _ _ => rfl) es

/-- An expression reads the names in it. -/
theorem flatMap_reads_eq_namesIn (es : List Expr) : es.flatMap Expr.reads = namesIn es := by
  rw [namesIn, List.flatMap_assoc]
  refine List.flatMap_congr fun e _ =>
    eq_flatMap_parts Expr.parts_eq (fun _ _ => Expr.sizeOf_of_mem_operands) (fun e => ?_) e
  cases e <;> simp [Expr.reads, Expr.operands, Expr.readsOfAll_eq]

theorem Stmt.ownReads_eq (s : Stmt) : s.ownReads = s.readExprs.flatMap Expr.reads :=
  (flatMap_reads_eq_namesIn s.readExprs).symm

theorem walk_reads :
    Walk true Stmt.ownReads Stmt.reads Otherwise.reads Stmt.readsOfAll Func.readsOfAll where
  branch test body bodyPos o pos := by
    rw [Stmt.ownReads_eq, Stmt.readExprs, List.flatMap_singleton]
    exact List.append_assoc _ _ _
  loop test body bodyPos pos := by
    rw [Stmt.ownReads_eq, Stmt.readExprs, List.flatMap_singleton]
    rfl
  forEach name namePos collection body bodyPos pos := by
    rw [Stmt.ownReads_eq, Stmt.readExprs, List.flatMap_singleton]
    rfl
  leaf s h := by
    rw [Stmt.ownReads_eq]
    cases s with
    | assign target value pos =>
      cases target <;> simp [Stmt.readExprs, Stmt.reads, Expr.name?]
    | declare | bump | ret | print | call => simp [Stmt.readExprs, Stmt.reads, Expr.reads]
    | leave => rfl
    | _ => cases h

theorem walk_writes :
    Walk true Stmt.ownWrites Stmt.writes Otherwise.writes Stmt.writesOfAll Func.writesOfAll where
  leaf s h := by
    cases s with
    | assign target | bump _ target => cases target <;> rfl
    | declare | leave | ret | print | call => rfl
    | _ => cases h

/-- A remark on each of some declarations that asks for it. -/
def remarksOn {α : Type} (asks : α → Bool) (remark : α → Remark × Pos) (declared : List α) : Remarks :=
  (declared.filter asks).map remark

theorem flatMap_remarkIf {α : Type} {asks : α → Bool} {remark : α → Remark} {pos : α → Pos}
    (declared : List α) :
    (declared.flatMap fun d => remarkIf (asks d) (remark d) (pos d)) =
      remarksOn asks (fun d => (remark d, pos d)) declared := by
  induction declared with
  | nil => rfl
  | cons d rest ih =>
    rw [List.flatMap_cons, ih, remarksOn, remarksOn, List.filter_cons, remarkIf]
    split <;> rfl

theorem variableNaming_eq (name : Text) (pos : Pos) :
    variableNaming name pos = remarksOn (fun v => !decide (Naming.Follows Letter.isLower v.1))
      (fun v => (.variableName v.1, v.2)) [(name, pos)] := by
  rw [variableNaming, Naming.isLowerCamelCase_eq, ← flatMap_remarkIf, List.flatMap_singleton]

/-- The remarks on what a statement itself declares. -/
def Stmt.ownRemarks (s : Stmt) : Remarks :=
  remarksOn (fun c => !decide (Naming.Follows Letter.isUpper c.1)) (fun c => (.className c.1, c.2))
      s.classes ++
    (remarksOn (fun v => !decide (Naming.Follows Letter.isLower v.1))
        (fun v => (.variableName v.1, v.2)) s.variables ++
      s.callables.flatMap fun c => c.2.remarks c.1)

theorem walk_remarks : Walk true Stmt.ownRemarks Stmt.remarks Otherwise.remarks Stmt.remarksOfAll
    Func.innerRemarksOfAll where
  function name params result body bodyPos pos :=
    congrArg (· ++ Stmt.remarksOfAll body) (List.append_nil _).symm
  cls name fields methods pos := by
    refine congrArg (· ++ _) ?_
    simp only [Stmt.ownRemarks, Stmt.classes, Stmt.variables, Stmt.callables, classRemarks,
      variableNaming, Naming.isUpperCamelCase_eq, Naming.isLowerCamelCase_eq, ← flatMap_remarkIf,
      List.flatMap_singleton, List.flatMap_map, List.append_assoc]
  forEach name namePos collection body bodyPos pos := by
    rw [Stmt.remarks, variableNaming_eq]
    exact congrArg (· ++ _) (List.append_nil _).symm
  leaf s h := by
    cases s with
    | declare name readOnly value pos =>
      rw [Stmt.remarks, variableNaming_eq]
      exact (List.append_nil _).symm
    | assign | bump | leave | ret | print | call => rfl
    | _ => cases h

theorem walk_unused (used : Names) : Walk false
    (fun s => remarksOn (fun v => !used.contains v.1) (fun v => (.unusedVariable v.1, v.2))
      (s.locals false))
    (Stmt.unused used) (Otherwise.unused used) (Stmt.unusedInAll used) (fun _ => []) where
  leaf s h := by
    cases s with
    | declare name readOnly value pos =>
      rw [← flatMap_remarkIf]
      exact (List.append_nil _).symm
    | assign | bump | leave | ret | print | call => rfl
    | _ => cases h

theorem walk_constants (written : Names) : Walk true
    (fun s => remarksOn (fun v => !written.contains v.1) (fun v => (.neverReassigned v.1, v.2))
      (s.locals true))
    (Stmt.constants written) (Otherwise.constants written) (Stmt.constantsInAll written)
    (Func.constantsInAll written) where
  leaf s h := by
    cases s with
    | declare name readOnly value pos =>
      rw [← flatMap_remarkIf]
      cases readOnly with
      | false => exact (List.append_nil _).symm
      | true => rfl
    | assign | bump | leave | ret | print | call => rfl
    | _ => cases h

end Walks

section Warranted

/-- The names that statements read, at any depth. -/
def namesRead (body : List Stmt) : Names := (Stmt.partsOfAll true body).flatMap Stmt.ownReads

/-- The names that statements assign or step, at any depth. -/
def namesWritten (body : List Stmt) : Names := (Stmt.partsOfAll true body).flatMap Stmt.ownWrites

/-- The variables of a function's body, but for those of functions and classes inside it. -/
def Func.locals (f : Func) : List (Text × Pos) :=
  (Stmt.partsOfAll false f.body).flatMap (Stmt.locals false)

/-- The remarks that functions and methods ask for. -/
def warrantedByCallables (callables : List (Text × Func)) : Remarks :=
  remarksOn (fun c => c.2.body.isEmpty) (fun c => (.emptyBody c.1, c.2.pos)) callables ++
    remarksOn (fun c => !decide (Naming.Follows Letter.isLower c.2.name))
      (fun c => (.functionName c.2.name, c.2.pos)) callables ++
    (callables.flatMap fun c => remarksOn (fun p => !decide (Naming.Follows Letter.isLower p.name))
      (fun p => (.variableName p.name, p.pos)) c.2.params) ++
    (callables.flatMap fun c => remarksOn (fun p => !(namesRead c.2.body).contains p.name)
      (fun p => (.unusedParam p.name c.1, p.pos)) c.2.params) ++
    callables.flatMap fun c => remarksOn (fun v => !(namesRead c.2.body).contains v.1)
      (fun v => (.unusedVariable v.1, v.2)) c.2.locals

/-- The remarks that some statements ask for, all that are inside them included, where some names are
written. -/
def warranted (written : Names) (parts : List Stmt) : Remarks :=
  remarksOn (fun c => !decide (Naming.Follows Letter.isUpper c.1)) (fun c => (.className c.1, c.2))
      (parts.flatMap Stmt.classes) ++
    (remarksOn (fun v => !decide (Naming.Follows Letter.isLower v.1))
      (fun v => (.variableName v.1, v.2)) (parts.flatMap Stmt.variables) ++
    warrantedByCallables (parts.flatMap Stmt.callables)) ++
    remarksOn (fun v => !written.contains v.1) (fun v => (.neverReassigned v.1, v.2))
      (parts.flatMap (Stmt.locals true))

theorem flatMap_remarksOn {α β : Type} {asks : α → Bool} {remark : α → Remark × Pos}
    {declares : β → List α} (parts : List β) :
    (parts.flatMap fun s => remarksOn asks remark (declares s)) =
      remarksOn asks remark (parts.flatMap declares) := by
  simp only [remarksOn, List.filter_flatMap, List.map_flatMap]

theorem perm_flatMap_append {α β : Type} {xs : List α} {f g : α → List β} {ys zs : List β}
    (hf : (xs.flatMap f).Perm ys) (hg : (xs.flatMap g).Perm zs) :
    (xs.flatMap fun x => f x ++ g x).Perm (ys ++ zs) :=
  (List.flatMap_append_perm xs f g).symm.trans (hf.append hg)

theorem flatMap_remarks_perm (callables : List (Text × Func)) :
    (callables.flatMap fun c => c.2.remarks c.1).Perm (warrantedByCallables callables) := by
  simp only [Func.remarks, variableNaming, Naming.isLowerCamelCase_eq, walk_reads.stmts_eq_parts,
    (walk_unused _).stmts_eq_parts, flatMap_remarksOn, flatMap_remarkIf]
  refine perm_flatMap_append (perm_flatMap_append (perm_flatMap_append (perm_flatMap_append ?_ ?_)
    (.refl _)) (.refl _)) (.refl _)
  · exact .of_eq (flatMap_remarkIf _)
  · exact .of_eq (flatMap_remarkIf _)

/-- The remarks on a program are those that its statements ask for. -/
theorem Program.remarks_perm (program : Program) :
    program.remarks.Perm (warranted (namesWritten program) (Stmt.partsOfAll true program)) := by
  rw [Program.remarks, walk_remarks.stmts_eq_parts, (walk_constants _).stmts_eq_parts,
    walk_writes.stmts_eq_parts, flatMap_remarksOn]
  refine .append_right _ (perm_flatMap_append ?_ (perm_flatMap_append ?_ ?_))
  · exact .of_eq (flatMap_remarksOn _)
  · exact .of_eq (flatMap_remarksOn _)
  · rw [← List.flatMap_assoc]
    exact flatMap_remarks_perm _

/-- A program gets one warning for each of its declarations, at any depth, that asks for it, and no
other: for a variable, a function or a class whose name does not follow its convention, for a function
or method that is empty, for a parameter or a variable of one that is not read in it, and for a variable
that is nowhere assigned. -/
theorem Program.lint_perm (program : Program) :
    program.lint.Perm ((warranted (namesWritten program) (Stmt.partsOfAll true program)).map
      fun r => ⟨.warning, r.1.message, r.2, r.1.hint⟩) :=
  program.remarks_perm.map _

end Warranted

end PeakLang.Tree
