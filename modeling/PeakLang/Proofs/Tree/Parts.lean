import Mathlib.Data.List.Perm.Basic
import PeakLang.Tree

namespace PeakLang.Tree

/-- The expressions that an expression is made of. -/
def Expr.operands : Expr → List Expr
  | .array elements _ => elements
  | .member object _ _ => [object]
  | .index object i _ => [object, i]
  | .call callee args _ => callee :: args
  | .unary _ operand _ => [operand]
  | .binary _ left right _ => [left, right]
  | .conditional test consequent alternate _ => [test, consequent, alternate]
  | .name _ _ | .shot _ | .int _ _ | .float _ _ | .string _ _ | .bool _ _ | .emptyArray _ _ => []

theorem Expr.sizeOf_of_mem_operands {e x : Expr} (h : x ∈ e.operands) : sizeOf x < sizeOf e := by
  cases e with
  | array elements =>
    have hx := List.sizeOf_lt_of_mem (show x ∈ elements from h)
    rw [Expr.array.sizeOf_spec]
    omega
  | call callee args =>
    rw [Expr.call.sizeOf_spec]
    rcases List.mem_cons.mp h with rfl | h
    · omega
    · have hx := List.sizeOf_lt_of_mem h
      omega
  | member | unary =>
    obtain rfl := List.mem_singleton.mp h
    simp only [Expr.member.sizeOf_spec, Expr.unary.sizeOf_spec]
    omega
  | index | binary | conditional =>
    simp only [operands, List.mem_cons, List.not_mem_nil, or_false] at h
    simp only [Expr.index.sizeOf_spec, Expr.binary.sizeOf_spec, Expr.conditional.sizeOf_spec]
    rcases h with rfl | rfl | rfl <;> omega
  | name | shot | int | float | string | bool | emptyArray => cases h

/-- An expression, and the expressions inside it at any depth. -/
def Expr.parts (e : Expr) : List Expr := e :: e.operands.attach.flatMap fun x => x.1.parts
termination_by sizeOf e
decreasing_by exact Expr.sizeOf_of_mem_operands x.2

theorem Expr.parts_eq (e : Expr) : e.parts = e :: e.operands.flatMap Expr.parts := by
  rw [Expr.parts, List.flatMap_subtype fun _ _ => rfl, List.unattach_attach]

/-- The statements of what follows the body of a branch: another branch is a statement of its own. -/
def Otherwise.statements : Otherwise → List Stmt
  | .nothing => []
  | .block body _ => body
  | .chain next => [.branch next]

/-- The statements right inside a statement; those of functions and methods only if asked for. -/
def Stmt.blocks (deep : Bool) : Stmt → List Stmt
  | .function f => if deep then f.body else []
  | .cls _ _ methods _ => if deep then methods.flatMap Func.body else []
  | .branch (.mk _ body _ otherwise _) => body ++ otherwise.statements
  | .loop _ body _ _ => body
  | .forEach _ _ _ body _ _ => body
  | .declare _ _ _ _ | .assign _ _ _ | .bump _ _ _ | .leave _ | .ret _ _ | .print _ _
  | .call _ _ _ _ => []

theorem Stmt.sizeOf_of_mem_blocks {deep : Bool} {s t : Stmt} (h : t ∈ s.blocks deep) :
    sizeOf t < sizeOf s := by
  cases s with
  | function f =>
    obtain ⟨name, params, result, body, bodyPos, pos⟩ := f
    cases deep with
    | false => cases h
    | true =>
      have hbody := List.sizeOf_lt_of_mem (show t ∈ body from h)
      simp only [Stmt.function.sizeOf_spec, Func.mk.sizeOf_spec]
      omega
  | cls name fields methods pos =>
    cases deep with
    | false => cases h
    | true =>
      obtain ⟨⟨_, _, _, body, _, _⟩, hf, ht⟩ := List.mem_flatMap.mp h
      have hfunc := List.sizeOf_lt_of_mem hf
      have hbody := List.sizeOf_lt_of_mem (show t ∈ body from ht)
      simp only [Stmt.cls.sizeOf_spec, Func.mk.sizeOf_spec] at hfunc ⊢
      omega
  | branch b =>
    obtain ⟨test, body, bodyPos, otherwise, pos⟩ := b
    simp only [Stmt.branch.sizeOf_spec, Branch.mk.sizeOf_spec]
    rcases List.mem_append.mp h with h | h
    · have hbody := List.sizeOf_lt_of_mem h
      omega
    · cases otherwise with
      | nothing => cases h
      | block body =>
        have hbody := List.sizeOf_lt_of_mem (show t ∈ body from h)
        simp only [Otherwise.block.sizeOf_spec]
        omega
      | chain next =>
        obtain rfl := List.mem_singleton.mp h
        simp only [Otherwise.chain.sizeOf_spec, Stmt.branch.sizeOf_spec]
        omega
  | loop test body | forEach name namePos collection body =>
    have hbody := List.sizeOf_lt_of_mem (show t ∈ body from h)
    simp only [Stmt.loop.sizeOf_spec, Stmt.forEach.sizeOf_spec]
    omega
  | declare | assign | bump | leave | ret | print | call => cases h

/-- A statement, and the statements inside it at any depth; those of functions and methods only if asked
for. -/
def Stmt.parts (deep : Bool) (s : Stmt) : List Stmt :=
  s :: (s.blocks deep).attach.flatMap fun t => t.1.parts deep
termination_by sizeOf s
decreasing_by exact Stmt.sizeOf_of_mem_blocks t.2

theorem Stmt.parts_eq (deep : Bool) (s : Stmt) :
    s.parts deep = s :: (s.blocks deep).flatMap (Stmt.parts deep) := by
  rw [Stmt.parts, List.flatMap_subtype fun _ _ => rfl, List.unattach_attach]

/-- The statements in a row, and those inside them at any depth. -/
def Stmt.partsOfAll (deep : Bool) (body : List Stmt) : List Stmt := body.flatMap (Stmt.parts deep)

theorem eq_flatMap {α β : Type} {g : α → List β} {gs : List α → List β} (hnil : gs [] = [])
    (hcons : ∀ a rest, gs (a :: rest) = g a ++ gs rest) (as : List α) : gs as = as.flatMap g := by
  induction as with
  | nil => exact hnil
  | cons a rest ih => rw [hcons, List.flatMap_cons, ih]

variable {β : Type} {deep : Bool} {own stmt : Stmt → List β}

/-- A walk that gives what it finds at a node, and then what it finds right inside, gives what it finds
at all its parts. -/
theorem eq_flatMap_parts {α : Type} [SizeOf α] {own walk : α → List β} {inside parts : α → List α}
    (hparts : ∀ a, parts a = a :: (inside a).flatMap parts)
    (hsize : ∀ a, ∀ x ∈ inside a, sizeOf x < sizeOf a)
    (h : ∀ a, walk a = own a ++ (inside a).flatMap walk) (a : α) : walk a = (parts a).flatMap own := by
  rw [h, hparts, List.flatMap_cons, List.flatMap_assoc]
  exact congrArg (own a ++ ·)
    (List.flatMap_congr fun x hx => eq_flatMap_parts hparts hsize h x)
termination_by sizeOf a
decreasing_by exact hsize a x hx

/-- What each statement hands on to those right inside it holds of all its parts. -/
theorem Stmt.forall_parts {Q : Stmt → Prop} (h : ∀ s, Q s → ∀ t ∈ s.blocks deep, Q t) {s : Stmt}
    (hs : Q s) : ∀ t ∈ s.parts deep, Q t := by
  rw [Stmt.parts_eq]
  refine List.forall_mem_cons.mpr ⟨hs, fun t ht => ?_⟩
  obtain ⟨u, hu, ht⟩ := List.mem_flatMap.mp ht
  exact Stmt.forall_parts h (h s hs u hu) t ht
termination_by sizeOf s
decreasing_by exact Stmt.sizeOf_of_mem_blocks hu

/-- Statements that hold no others. -/
def Stmt.isLeaf : Stmt → Bool
  | .function _ | .cls _ _ _ _ | .branch _ | .loop _ _ _ _ | .forEach _ _ _ _ _ _ => false
  | _ => true

/-- How a walk goes over a tree: at each statement it gives what is its `own`, and then goes on right
inside it, in the order of the source. -/
structure Walk (deep : Bool) (own stmt : Stmt → List β) (otherwise : Otherwise → List β)
    (stmts : List Stmt → List β) (funcs : List Func → List β) : Prop where
  function : ∀ name params result body bodyPos pos,
    stmt (.function (.mk name params result body bodyPos pos)) =
      own (.function (.mk name params result body bodyPos pos)) ++ if deep then stmts body else []
    := by intros; rfl
  cls : ∀ name fields methods pos,
    stmt (.cls name fields methods pos) = own (.cls name fields methods pos) ++ funcs methods
    := by intros; rfl
  branch : ∀ test body bodyPos o pos, stmt (.branch (.mk test body bodyPos o pos)) =
    own (.branch (.mk test body bodyPos o pos)) ++ (stmts body ++ otherwise o) := by intros; rfl
  loop : ∀ test body bodyPos pos,
    stmt (.loop test body bodyPos pos) = own (.loop test body bodyPos pos) ++ stmts body
    := by intros; rfl
  forEach : ∀ name namePos collection body bodyPos pos,
    stmt (.forEach name namePos collection body bodyPos pos) =
      own (.forEach name namePos collection body bodyPos pos) ++ stmts body := by intros; rfl
  leaf : ∀ s, s.isLeaf = true → stmt s = own s := by
    intro s h
    cases s <;> first | rfl | cases h
  nothing : otherwise .nothing = [] := by rfl
  block : ∀ body bodyPos, otherwise (.block body bodyPos) = stmts body := by intros; rfl
  chain : ∀ next, otherwise (.chain next) = stmt (.branch next) := by intros; rfl
  nil : stmts [] = [] := by rfl
  cons : ∀ s rest, stmts (s :: rest) = stmt s ++ stmts rest := by intros; rfl
  noFuncs : funcs [] = [] := by rfl
  funcs : ∀ name params result body bodyPos pos rest,
    funcs (.mk name params result body bodyPos pos :: rest) =
      (if deep then stmts body else []) ++ funcs rest := by intros; rfl

namespace Walk

variable {otherwise : Otherwise → List β} {stmts : List Stmt → List β} {funcs : List Func → List β}

theorem stmts_eq (h : Walk deep own stmt otherwise stmts funcs) (body : List Stmt) :
    stmts body = body.flatMap stmt :=
  eq_flatMap h.nil h.cons body

theorem stmt_eq (h : Walk deep own stmt otherwise stmts funcs) (s : Stmt) :
    stmt s = own s ++ (s.blocks deep).flatMap stmt := by
  cases s with
  | function f =>
    obtain ⟨name, params, result, body, bodyPos, pos⟩ := f
    rw [h.function]
    cases deep with
    | false => rfl
    | true => exact congrArg (_ ++ ·) (h.stmts_eq body)
  | cls name fields methods pos =>
    rw [h.cls]
    refine congrArg (_ ++ ·) ?_
    induction methods with
    | nil => cases deep <;> exact h.noFuncs
    | cons f rest ih =>
      obtain ⟨name, params, result, body, bodyPos, pos⟩ := f
      rw [h.funcs, ih]
      cases deep with
      | false => rfl
      | true =>
        simp only [Stmt.blocks, if_true, List.flatMap_cons, List.flatMap_append, h.stmts_eq, Func.body]
  | branch b =>
    obtain ⟨test, body, bodyPos, otherwise, pos⟩ := b
    rw [h.branch, Stmt.blocks, List.flatMap_append, ← h.stmts_eq]
    cases otherwise with
    | nothing => rw [h.nothing]; rfl
    | block body' => rw [h.block, h.stmts_eq body']; rfl
    | chain next => rw [h.chain, Otherwise.statements, List.flatMap_singleton]
  | loop test body bodyPos pos => rw [h.loop, Stmt.blocks, h.stmts_eq]
  | forEach name namePos collection body bodyPos pos => rw [h.forEach, Stmt.blocks, h.stmts_eq]
  | declare | assign | bump | leave | ret | print | call =>
    rw [h.leaf _ rfl]
    exact (List.append_nil _).symm

/-- What a walk gives for statements in a row. -/
theorem stmts_eq_parts (h : Walk deep own stmt otherwise stmts funcs) (body : List Stmt) :
    stmts body = (Stmt.partsOfAll deep body).flatMap own := by
  rw [h.stmts_eq, Stmt.partsOfAll, List.flatMap_assoc]
  exact List.flatMap_congr fun s _ =>
    eq_flatMap_parts (Stmt.parts_eq deep) (fun _ _ => Stmt.sizeOf_of_mem_blocks) h.stmt_eq s

end Walk

end PeakLang.Tree
