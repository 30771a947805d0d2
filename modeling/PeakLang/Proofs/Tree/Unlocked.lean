import PeakLang.Proofs.Tree.Lint

namespace PeakLang.Tree

variable {x : Text} {pos : Pos}

section Definitions

variable (opens : Text → Bool)

mutual

/-- A statement in which every declaration of an opened name is that of a variable. -/
def Stmt.unlocked : Stmt → Stmt
  | .declare name readOnly value pos => .declare name (!opens name && readOnly) value pos
  | .function f => .function f.unlocked
  | .cls name fields methods pos => .cls name fields (Func.unlockedAll methods) pos
  | .branch b => .branch b.unlocked
  | .loop test body bodyPos pos => .loop test (Stmt.unlockedAll body) bodyPos pos
  | .forEach name namePos collection body bodyPos pos =>
    .forEach name namePos collection (Stmt.unlockedAll body) bodyPos pos
  | .assign target value pos => .assign target value pos
  | .bump op target pos => .bump op target pos
  | .leave pos => .leave pos
  | .ret value pos => .ret value pos
  | .print value pos => .print value pos
  | .call callee args callPos pos => .call callee args callPos pos

def Func.unlocked : Func → Func
  | .mk name params result body bodyPos pos =>
    .mk name params result (Stmt.unlockedAll body) bodyPos pos

def Branch.unlocked : Branch → Branch
  | .mk test body bodyPos otherwise pos =>
    .mk test (Stmt.unlockedAll body) bodyPos otherwise.unlocked pos

def Otherwise.unlocked : Otherwise → Otherwise
  | .nothing => .nothing
  | .block body bodyPos => .block (Stmt.unlockedAll body) bodyPos
  | .chain next => .chain next.unlocked

def Stmt.unlockedAll : List Stmt → List Stmt
  | [] => []
  | s :: rest => s.unlocked :: Stmt.unlockedAll rest

def Func.unlockedAll : List Func → List Func
  | [] => []
  | f :: rest => f.unlocked :: Func.unlockedAll rest

end

variable (x : Text) (pos : Pos)

mutual

/-- The statements that come of turning one variable of a name, declared at a position, into a
constant. -/
def Stmt.fixes : Stmt → List Stmt
  | .declare name readOnly value p =>
    if name = x ∧ p = pos ∧ readOnly = false then [.declare name true value p] else []
  | .function f => f.fixes.map .function
  | .cls name fields methods p => (Func.fixesInAll methods).map fun ms => .cls name fields ms p
  | .branch b => b.fixes.map .branch
  | .loop test body bodyPos p => (Stmt.fixesInAll body).map fun ss => .loop test ss bodyPos p
  | .forEach name namePos collection body bodyPos p =>
    (Stmt.fixesInAll body).map fun ss => .forEach name namePos collection ss bodyPos p
  | .assign _ _ _ | .bump _ _ _ | .leave _ | .ret _ _ | .print _ _ | .call _ _ _ _ => []

def Func.fixes : Func → List Func
  | .mk name params result body bodyPos p =>
    (Stmt.fixesInAll body).map fun ss => .mk name params result ss bodyPos p

def Branch.fixes : Branch → List Branch
  | .mk test body bodyPos otherwise p =>
    ((Stmt.fixesInAll body).map fun ss => .mk test ss bodyPos otherwise p) ++
      otherwise.fixes.map fun o => .mk test body bodyPos o p

def Otherwise.fixes : Otherwise → List Otherwise
  | .nothing => []
  | .block body bodyPos => (Stmt.fixesInAll body).map fun ss => .block ss bodyPos
  | .chain next => next.fixes.map .chain

def Stmt.fixesInAll : List Stmt → List (List Stmt)
  | [] => []
  | s :: rest => (s.fixes.map fun s' => s' :: rest) ++ (Stmt.fixesInAll rest).map fun ss => s :: ss

def Func.fixesInAll : List Func → List (List Func)
  | [] => []
  | f :: rest => (f.fixes.map fun f' => f' :: rest) ++ (Func.fixesInAll rest).map fun fs => f :: fs

end

/-- The programs that come of turning one variable of a name, declared at a position, into a
constant. -/
def Program.fixes (program : Program) : List Program := Stmt.fixesInAll x pos program

end Definitions

section Unlocking

variable {opens : Text → Bool}

mutual

/-- Turning one variable into a constant is undone where every declaration of its name is that of a
variable. -/
theorem Stmt.unlocked_of_mem_fixes (s : Stmt) :
    ∀ s' ∈ s.fixes x pos, s'.unlocked (· == x) = s.unlocked (· == x) := by
  intro s' h
  cases s with
  | declare name readOnly value p =>
    rw [Stmt.fixes] at h
    split at h
    · rename_i hdeclared
      obtain ⟨rfl, -, rfl⟩ := hdeclared
      rw [List.mem_singleton.mp h, Stmt.unlocked, Stmt.unlocked, beq_self_eq_true]
      rfl
    · cases h
  | function f =>
    obtain ⟨f', hf, rfl⟩ := List.mem_map.mp h
    rw [Stmt.unlocked, Stmt.unlocked, Func.unlocked_of_mem_fixes f _ hf]
  | cls name fields methods p =>
    obtain ⟨ms, hms, rfl⟩ := List.mem_map.mp h
    rw [Stmt.unlocked, Stmt.unlocked, Func.unlockedAll_of_mem_fixes methods _ hms]
  | branch b =>
    obtain ⟨b', hb, rfl⟩ := List.mem_map.mp h
    rw [Stmt.unlocked, Stmt.unlocked, Branch.unlocked_of_mem_fixes b _ hb]
  | loop test body bodyPos p =>
    obtain ⟨ss, hss, rfl⟩ := List.mem_map.mp h
    rw [Stmt.unlocked, Stmt.unlocked, Stmt.unlockedAll_of_mem_fixes body _ hss]
  | forEach name namePos collection body bodyPos p =>
    obtain ⟨ss, hss, rfl⟩ := List.mem_map.mp h
    rw [Stmt.unlocked, Stmt.unlocked, Stmt.unlockedAll_of_mem_fixes body _ hss]
  | assign | bump | leave | ret | print | call => cases h
termination_by structural s

theorem Func.unlocked_of_mem_fixes (f : Func) :
    ∀ f' ∈ f.fixes x pos, f'.unlocked (· == x) = f.unlocked (· == x) := by
  intro f' h
  obtain ⟨name, params, result, body, bodyPos, p⟩ := f
  obtain ⟨ss, hss, rfl⟩ := List.mem_map.mp h
  rw [Func.unlocked, Func.unlocked, Stmt.unlockedAll_of_mem_fixes body _ hss]
termination_by structural f

theorem Branch.unlocked_of_mem_fixes (b : Branch) :
    ∀ b' ∈ b.fixes x pos, b'.unlocked (· == x) = b.unlocked (· == x) := by
  intro b' h
  obtain ⟨test, body, bodyPos, otherwise, p⟩ := b
  rcases List.mem_append.mp h with h | h
  · obtain ⟨ss, hss, rfl⟩ := List.mem_map.mp h
    rw [Branch.unlocked, Branch.unlocked, Stmt.unlockedAll_of_mem_fixes body _ hss]
  · obtain ⟨o, ho, rfl⟩ := List.mem_map.mp h
    rw [Branch.unlocked, Branch.unlocked, Otherwise.unlocked_of_mem_fixes otherwise _ ho]
termination_by structural b

theorem Otherwise.unlocked_of_mem_fixes (o : Otherwise) :
    ∀ o' ∈ o.fixes x pos, o'.unlocked (· == x) = o.unlocked (· == x) := by
  intro o' h
  cases o with
  | nothing => cases h
  | block body bodyPos =>
    obtain ⟨ss, hss, rfl⟩ := List.mem_map.mp h
    rw [Otherwise.unlocked, Otherwise.unlocked, Stmt.unlockedAll_of_mem_fixes body _ hss]
  | chain next =>
    obtain ⟨b, hb, rfl⟩ := List.mem_map.mp h
    rw [Otherwise.unlocked, Otherwise.unlocked, Branch.unlocked_of_mem_fixes next _ hb]
termination_by structural o

theorem Stmt.unlockedAll_of_mem_fixes (body : List Stmt) :
    ∀ body' ∈ Stmt.fixesInAll x pos body,
      Stmt.unlockedAll (· == x) body' = Stmt.unlockedAll (· == x) body := by
  intro body' h
  cases body with
  | nil => cases h
  | cons s rest =>
    rcases List.mem_append.mp h with h | h
    · obtain ⟨s', hs, rfl⟩ := List.mem_map.mp h
      rw [Stmt.unlockedAll, Stmt.unlockedAll, Stmt.unlocked_of_mem_fixes s _ hs]
    · obtain ⟨ss, hss, rfl⟩ := List.mem_map.mp h
      rw [Stmt.unlockedAll, Stmt.unlockedAll, Stmt.unlockedAll_of_mem_fixes rest _ hss]
termination_by structural body

theorem Func.unlockedAll_of_mem_fixes (fs : List Func) :
    ∀ fs' ∈ Func.fixesInAll x pos fs,
      Func.unlockedAll (· == x) fs' = Func.unlockedAll (· == x) fs := by
  intro fs' h
  cases fs with
  | nil => cases h
  | cons f rest =>
    rcases List.mem_append.mp h with h | h
    · obtain ⟨f', hf, rfl⟩ := List.mem_map.mp h
      rw [Func.unlockedAll, Func.unlockedAll, Func.unlocked_of_mem_fixes f _ hf]
    · obtain ⟨gs, hgs, rfl⟩ := List.mem_map.mp h
      rw [Func.unlockedAll, Func.unlockedAll, Func.unlockedAll_of_mem_fixes rest _ hgs]
termination_by structural fs

end

theorem walk_writes_unlocked : Walk true Stmt.ownWrites (fun s => (s.unlocked opens).writes)
    (fun o => (o.unlocked opens).writes) (fun body => Stmt.writesOfAll (Stmt.unlockedAll opens body))
    (fun fs => Func.writesOfAll (Func.unlockedAll opens fs)) where
  leaf s h := by
    cases s with
    | declare | assign | bump | leave | ret | print | call => exact walk_writes.leaf _ h
    | _ => cases h

theorem Stmt.writesOfAll_unlocked (body : List Stmt) :
    Stmt.writesOfAll (Stmt.unlockedAll opens body) = Stmt.writesOfAll body :=
  (walk_writes_unlocked.stmts_eq_parts body).trans (walk_writes.stmts_eq_parts body).symm

end Unlocking

section Advice

/-- A name that nothing writes, and of which one declaration can be turned. -/
structure Advised {α : Type} (x : Text) (written : Names) (fixes : List α) : Prop where
  unwritten : x ∉ written
  fixable : fixes ≠ []

theorem Stmt.fixes_eq_nil_of_mem {body : List Stmt} (h : Stmt.fixesInAll x pos body = []) :
    ∀ s ∈ body, s.fixes x pos = [] := by
  induction body with
  | nil => exact List.forall_mem_nil _
  | cons s rest ih =>
    simp only [Stmt.fixesInAll, List.append_eq_nil_iff, List.map_eq_nil_iff] at h
    exact List.forall_mem_cons.mpr ⟨h.1, ih h.2⟩

theorem Func.fixes_eq_nil_of_mem {fs : List Func} (h : Func.fixesInAll x pos fs = []) :
    ∀ s ∈ fs.flatMap Func.body, s.fixes x pos = [] := by
  induction fs with
  | nil => exact List.forall_mem_nil _
  | cons f rest ih =>
    obtain ⟨name, params, result, body, bodyPos, p⟩ := f
    simp only [Func.fixesInAll, Func.fixes, List.append_eq_nil_iff, List.map_eq_nil_iff] at h
    exact List.forall_mem_append.mpr ⟨Stmt.fixes_eq_nil_of_mem h.1, ih h.2⟩

/-- Where nothing can be turned in a statement, nothing can be right inside it. -/
theorem Stmt.fixes_eq_nil_of_mem_blocks (s : Stmt) (h : s.fixes x pos = []) :
    ∀ t ∈ s.blocks true, t.fixes x pos = [] := by
  cases s with
  | function f =>
    obtain ⟨name, params, result, body, bodyPos, p⟩ := f
    simp only [Stmt.fixes, Func.fixes, List.map_eq_nil_iff] at h
    exact Stmt.fixes_eq_nil_of_mem h
  | cls name fields methods p =>
    exact Func.fixes_eq_nil_of_mem (List.map_eq_nil_iff.mp h)
  | branch b =>
    obtain ⟨test, body, bodyPos, otherwise, p⟩ := b
    simp only [Stmt.fixes, Branch.fixes, List.append_eq_nil_iff, List.map_eq_nil_iff] at h
    refine List.forall_mem_append.mpr ⟨Stmt.fixes_eq_nil_of_mem h.1, ?_⟩
    cases otherwise with
    | nothing => exact List.forall_mem_nil _
    | block body => exact Stmt.fixes_eq_nil_of_mem (List.map_eq_nil_iff.mp h.2)
    | chain next =>
      refine List.forall_mem_singleton.mpr ?_
      rw [Stmt.fixes, List.map_eq_nil_iff]
      exact List.map_eq_nil_iff.mp h.2
  | loop test body | forEach name namePos collection body =>
    exact Stmt.fixes_eq_nil_of_mem (List.map_eq_nil_iff.mp h)
  | declare | assign | bump | leave | ret | print | call => exact List.forall_mem_nil _

/-- Where a program is said never to reassign a variable, nothing writes its name, and the variable can
be turned into a constant. -/
theorem Program.fixes_of_remark {program : Program}
    (h : (.neverReassigned x, pos) ∈ program.remarks) :
    Advised x (Stmt.writesOfAll program) (program.fixes x pos) := by
  have hwarranted := program.remarks_perm.mem_iff.mp h
  -- No other remark says so.
  obtain ⟨⟨s, hs, hdeclared⟩, hwritten⟩ :
      (∃ s ∈ Stmt.partsOfAll true program, (x, pos) ∈ s.locals true) ∧ x ∉ namesWritten program := by
    simpa [warranted, warrantedByCallables, remarksOn] using hwarranted
  refine ⟨by rwa [walk_writes.stmts_eq_parts], fun hnil => ?_⟩
  obtain ⟨t, ht, hs⟩ := List.mem_flatMap.mp hs
  have hfixes := Stmt.forall_parts Stmt.fixes_eq_nil_of_mem_blocks
    (Stmt.fixes_eq_nil_of_mem hnil t ht) s hs
  cases s with
  | declare name readOnly value p =>
    cases readOnly with
    | true => cases hdeclared
    | false =>
      obtain ⟨rfl, rfl⟩ := Prod.mk.inj (List.mem_singleton.mp hdeclared)
      rw [Stmt.fixes, if_pos ⟨rfl, rfl, rfl⟩] at hfixes
      cases hfixes
  | _ => cases hdeclared

end Advice

end PeakLang.Tree
