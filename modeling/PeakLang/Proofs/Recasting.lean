import PeakLang.Proofs.Renaming
import PeakLang.Proofs.Scope
import PeakLang.Tree.Lint

namespace PeakLang

/-- A variable without the mark that it is read-only, if its name is one of those opened. What is built in
keeps the mark. -/
def Variable.unlocked (opens : Text → Bool) (v : Variable) : Variable :=
  { v with readOnly := (v.builtin || !opens v.name) && v.readOnly }

theorem Variable.unlocked_none (v : Variable) : v.unlocked (fun _ => false) = v := by
  simp only [unlocked, Bool.not_false, Bool.or_true, Bool.true_and]

/-- A map of expressions that keeps their shape: names become others and positions are moved. Of the new
names, some are opened: their variables are no longer read-only. -/
structure Recasting where
  names : Renaming
  move : Pos → Pos
  opens : Text → Bool
  type : TypeExpr → TypeExpr
  types : List TypeExpr → List TypeExpr
  expr : Tree.Expr → Tree.Expr
  exprs : List Tree.Expr → List Tree.Expr
  type_named : ∀ n p, type (.named n p) = .named (names n) (move p) := by intros; rfl
  type_array : ∀ t p, type (.array t p) = .array (type t) (move p) := by intros; rfl
  type_optional : ∀ t p, type (.optional t p) = .optional (type t) (move p) := by intros; rfl
  type_function : ∀ ts t p, type (.function ts t p) = .function (types ts) (type t) (move p) := by
    intros; rfl
  types_nil : types [] = [] := by rfl
  types_cons : ∀ t ts, types (t :: ts) = type t :: types ts := by intros; rfl
  expr_name : ∀ n p, expr (.name n p) = .name (names n) (move p) := by intros; rfl
  expr_shot : ∀ p, expr (.shot p) = .shot (move p) := by intros; rfl
  expr_int : ∀ d p, expr (.int d p) = .int d (move p) := by intros; rfl
  expr_float : ∀ d p, expr (.float d p) = .float d (move p) := by intros; rfl
  expr_string : ∀ v p, expr (.string v p) = .string v (move p) := by intros; rfl
  expr_bool : ∀ v p, expr (.bool v p) = .bool v (move p) := by intros; rfl
  expr_array : ∀ es p, expr (.array es p) = .array (exprs es) (move p) := by intros; rfl
  expr_emptyArray : ∀ t p, expr (.emptyArray t p) = .emptyArray (type t) (move p) := by intros; rfl
  expr_member : ∀ e n p, expr (.member e n p) = .member (expr e) (names n) (move p) := by intros; rfl
  expr_index : ∀ e i p, expr (.index e i p) = .index (expr e) (expr i) (move p) := by intros; rfl
  expr_call : ∀ e as p, expr (.call e as p) = .call (expr e) (exprs as) (move p) := by intros; rfl
  expr_unary : ∀ op e p, expr (.unary op e p) = .unary op (expr e) (move p) := by intros; rfl
  expr_binary : ∀ op x y p, expr (.binary op x y p) = .binary op (expr x) (expr y) (move p) := by
    intros; rfl
  expr_conditional : ∀ t x y p,
    expr (.conditional t x y p) = .conditional (expr t) (expr x) (expr y) (move p) := by intros; rfl
  exprs_nil : exprs [] = [] := by rfl
  exprs_cons : ∀ e es, exprs (e :: es) = expr e :: exprs es := by intros; rfl

namespace Recasting

attribute [simp] type_named type_array type_optional type_function types_nil types_cons expr_name expr_shot
  expr_int expr_float expr_string expr_bool expr_array expr_emptyArray expr_member expr_index expr_call
  expr_unary expr_binary expr_conditional exprs_nil exprs_cons

variable (g : Recasting)

def param (p : Tree.Param) : Tree.Param := ⟨g.names p.name, g.type p.type, g.move p.pos⟩

def field (f : Tree.Field) : Tree.Field := ⟨g.names f.name, g.type f.type, g.move f.pos⟩

/-- A function whose head is that of another one, recast. -/
structure Head (f f' : Tree.Func) : Prop where
  name : f'.name = g.names f.name
  params : f'.params = f.params.map g.param
  result : f'.result = f.result.map g.type
  pos : f'.pos = g.move f.pos

/-- A map of statements that keeps their shape and goes along with one of expressions. Constants whose new
names are opened become variables. -/
structure Statements where
  stmt : Tree.Stmt → Tree.Stmt
  func : Tree.Func → Tree.Func
  branch : Tree.Branch → Tree.Branch
  otherwise : Tree.Otherwise → Tree.Otherwise
  stmts : List Tree.Stmt → List Tree.Stmt
  funcs : List Tree.Func → List Tree.Func
  stmt_declare : ∀ n readOnly e p, stmt (.declare n readOnly e p) =
    .declare (g.names n) (!g.opens (g.names n) && readOnly) (g.expr e) (g.move p) := by intros; rfl
  stmt_function : ∀ f, stmt (.function f) = .function (func f) := by intros; rfl
  stmt_cls : ∀ n fields ms p, stmt (.cls n fields ms p) =
    .cls (g.names n) (fields.map g.field) (funcs ms) (g.move p) := by intros; rfl
  stmt_assign : ∀ t e p, stmt (.assign t e p) = .assign (g.expr t) (g.expr e) (g.move p) := by
    intros; rfl
  stmt_bump : ∀ op t p, stmt (.bump op t p) = .bump op (g.expr t) (g.move p) := by intros; rfl
  stmt_branch : ∀ b, stmt (.branch b) = .branch (branch b) := by intros; rfl
  stmt_loop : ∀ t ss q p,
    stmt (.loop t ss q p) = .loop (g.expr t) (stmts ss) (g.move q) (g.move p) := by intros; rfl
  stmt_forEach : ∀ n m e ss q p, stmt (.forEach n m e ss q p) =
    .forEach (g.names n) (g.move m) (g.expr e) (stmts ss) (g.move q) (g.move p) := by intros; rfl
  stmt_leave : ∀ p, stmt (.leave p) = .leave (g.move p) := by intros; rfl
  stmt_ret : ∀ e p, stmt (.ret e p) = .ret (e.map g.expr) (g.move p) := by intros; rfl
  stmt_print : ∀ e p, stmt (.print e p) = .print (g.expr e) (g.move p) := by intros; rfl
  stmt_call : ∀ e as q p,
    stmt (.call e as q p) = .call (g.expr e) (g.exprs as) (g.move q) (g.move p) := by intros; rfl
  func_mk : ∀ n ps r ss q p, func (.mk n ps r ss q p) =
    .mk (g.names n) (ps.map g.param) (r.map g.type) (stmts ss) (g.move q) (g.move p) := by intros; rfl
  branch_mk : ∀ t ss q o p,
    branch (.mk t ss q o p) = .mk (g.expr t) (stmts ss) (g.move q) (otherwise o) (g.move p) := by
      intros; rfl
  otherwise_nothing : otherwise .nothing = .nothing := by rfl
  otherwise_block : ∀ ss q, otherwise (.block ss q) = .block (stmts ss) (g.move q) := by intros; rfl
  otherwise_chain : ∀ b, otherwise (.chain b) = .chain (branch b) := by intros; rfl
  stmts_nil : stmts [] = [] := by rfl
  stmts_cons : ∀ s ss, stmts (s :: ss) = stmt s :: stmts ss := by intros; rfl
  funcs_nil : funcs [] = [] := by rfl
  funcs_cons : ∀ f fs, funcs (f :: fs) = func f :: funcs fs := by intros; rfl

/-- Recasting that leaves all but the constants of some names, which become variables. -/
def opening (opens : Text → Bool) : Recasting where
  names := .none
  move := id
  opens := opens
  type := id
  types := id
  expr := id
  exprs := id

/-- Only the opened names count; the tree stays. -/
def plain : Recasting := opening g.opens

theorem map_param_plain (params : List Tree.Param) : params.map g.plain.param = params :=
  List.map_id' params

theorem map_field_plain (fields : List Tree.Field) : fields.map g.plain.field = fields :=
  List.map_id' fields

theorem map_type_plain (t : Option TypeExpr) : t.map g.plain.type = t := Option.map_id'

theorem map_expr_plain (e : Option Tree.Expr) : e.map g.plain.expr = e := Option.map_id'

theorem forall_head_plain (fs : List Tree.Func) : List.Forall₂ g.plain.Head fs fs := by
  refine List.forall₂_same.mpr fun _ _ => ⟨rfl, (g.map_param_plain _).symm, ?_, rfl⟩
  exact (g.map_type_plain _).symm

theorem Statements.forall_head {g : Recasting} (m : g.Statements) (fs : List Tree.Func) :
    List.Forall₂ g.Head fs (m.funcs fs) := by
  induction fs with
  | nil =>
    rw [m.funcs_nil]
    exact .nil
  | cons f rest ih =>
    obtain ⟨name, params, result, body, bodyPos, pos⟩ := f
    rw [m.funcs_cons, m.func_mk]
    exact .cons ⟨rfl, rfl, rfl, rfl⟩ ih

theorem pos_expr (e : Tree.Expr) : (g.expr e).pos = g.move e.pos := by
  cases e <;> simp [Tree.Expr.pos]

theorem name?_expr (e : Tree.Expr) : (g.expr e).name? = e.name?.map g.names := by
  cases e <;> simp [Tree.Expr.name?]

theorem length_exprs (es : List Tree.Expr) : (g.exprs es).length = es.length := by
  induction es with
  | nil => rw [g.exprs_nil]
  | cons e rest ih => rw [g.exprs_cons, List.length_cons, ih, List.length_cons]

end Recasting

variable (g : Recasting)

def Variable.recast (v : Variable) : Variable := (v.renamed g.names).unlocked g.opens

namespace Entity

def recast : Entity → Entity
  | var v => .var (v.recast g)
  | function f => .function (f.renamed g.names)
  | type n t => .type (g.names n) (t.renamed g.names)

theorem builtin_recast {id : Nat} {name : Text} {params : List Ty} {result : Ty}
    (hname : g.names name = name) (hparams : Ty.renamedAll g.names params = params)
    (hresult : result.renamed g.names = result) :
    (builtin id name params result).recast g = builtin id name params result := by
  simp only [builtin, recast, Function.renamed, Option.map_some, Signature.renamed, hname, hparams,
    hresult]

/-- What is built in has no class in its type and keeps its mark, so recasting leaves it. -/
theorem recast_of_mem_builtins {e : Entity} (h : e ∈ builtins) : e.recast g = e := by
  have hname := g.names.builtin e h
  rcases List.mem_append.mp h with hprim | hvalue
  · obtain ⟨p, -, rfl⟩ := List.mem_map.mp hprim
    exact congrArg (Entity.type · (.prim p)) hname
  · simp only [builtinValues, List.mem_cons, List.not_mem_nil, or_false] at hvalue
    rcases hvalue with rfl | hvalue
    · exact congrArg (fun n => Entity.var ⟨0, n, .affogato, true, true⟩) hname
    · rcases hvalue with rfl | rfl | rfl | rfl | rfl | rfl | rfl | rfl <;>
        exact builtin_recast g hname rfl rfl

end Entity

namespace Scope

def recast (s : Scope) : Scope :=
  { s with
    locals := s.locals.map fun d => (g.names d.1, d.2.recast g)
    function := s.function.map (Signature.renamed g.names)
    cls := s.cls.map (ClassRef.renamed g.names) }

theorem find?_recast (s : Scope) (name : Text) :
    (s.recast g).find? (g.names name) = (s.find? name).map (Entity.recast g) := by
  simp only [find?, recast]
  induction s.locals with
  | nil => rfl
  | cons d rest ih =>
    rw [List.map_cons, List.lookup_cons, List.lookup_cons, g.names.beq, ih]
    cases name == d.1 <;> rfl

theorem root_recast : root.recast g = root := by
  have hlocals : (Entity.builtins.map fun e => (e.name, e)).map
      (fun d => (g.names d.1, d.2.recast g)) = Entity.builtins.map fun e => (e.name, e) := by
    rw [List.map_map]
    refine List.map_congr_left fun e he => ?_
    rw [Function.comp_apply, g.names.builtin e he, Entity.recast_of_mem_builtins g he]
  rw [recast, root, hlocals]
  rfl

/-- What a new scope sets, renamed. -/
def Overrides.renamed (r : Renaming) (o : Overrides) : Overrides :=
  { o with
    function := o.function.map (Signature.renamed r)
    cls := o.cls.map (ClassRef.renamed r) }

theorem Overrides.renamed_none (o : Overrides) : o.renamed .none = o := by
  obtain ⟨inLoop, function, cls, resetClass⟩ := o
  rw [renamed, Signature.map_renamed_none]
  cases cls <;> rfl

theorem inside_recast (around : Scope) (parent : Nat) (o : Overrides) :
    (around.inside parent o).recast g = (around.recast g).inside parent (o.renamed g.names) := by
  obtain ⟨inLoop, function, cls, resetClass⟩ := o
  simp only [inside, recast, Overrides.renamed, List.map_nil, mk.injEq, true_and]
  constructor
  · cases function <;> rfl
  · cases cls <;> cases resetClass <;> rfl

end Scope

namespace Scopes

/-- Scopes with everything in them recast. -/
def recast (s : Scopes) : Scopes := { s with all := s.all.map (Scope.recast g) }

theorem size_recast (s : Scopes) : (s.recast g).all.size = s.all.size := Array.size_map

theorem get_recast (s : Scopes) (i : Nat) : (s.recast g).get i = (s.get i).recast g := by
  rw [get, recast, Array.getElem?_map, get]
  cases s.all[i]? with
  | none => exact (Scope.root_recast g).symm
  | some scope => rfl

theorem top_recast (s : Scopes) : (s.recast g).top = s.top.recast g := get_recast g s s.current

theorem inLoop_recast (s : Scopes) : (s.recast g).inLoop = s.inLoop := by
  rw [inLoop, top_recast]
  rfl

theorem function_recast (s : Scopes) :
    (s.recast g).function = s.function.map (Signature.renamed g.names) := by
  rw [function, top_recast]
  rfl

theorem cls_recast (s : Scopes) : (s.recast g).cls = s.cls.map (ClassRef.renamed g.names) := by
  rw [cls, top_recast]
  rfl

theorem outward_recast (s : Scopes) (limit index : Nat) :
    (s.recast g).outward limit index = (s.outward limit index).map (Scope.recast g) := by
  induction limit generalizing index with
  | zero => rfl
  | succ limit ih =>
    rw [outward, outward, List.map_cons, get_recast]
    have hparent : ((s.get index).recast g).parent = (s.get index).parent := rfl
    rw [hparent]
    cases (s.get index).parent with
    | none => rfl
    | some parent => exact congrArg _ (ih parent)

theorem find?_recast (s : Scopes) (name : Text) :
    (s.recast g).find? (g.names name) = (s.find? name).map (Entity.recast g) := by
  rw [find?, chain, size_recast, outward_recast, find?, chain]
  change ((s.outward s.all.size s.current).map _).findSome? _ = _
  induction s.outward s.all.size s.current with
  | nil => rfl
  | cons scope rest ih =>
    rw [List.map_cons, List.findSome?_cons, List.findSome?_cons, Scope.find?_recast, ih]
    cases scope.find? name <;> rfl

theorem findLocal?_recast (s : Scopes) (name : Text) :
    (s.recast g).findLocal? (g.names name) = (s.findLocal? name).map (Entity.recast g) := by
  rw [findLocal?, top_recast, Scope.find?_recast, findLocal?]

theorem push_recast (s : Scopes) (o : Scope.Overrides) :
    (s.recast g).push (o.renamed g.names) = (s.push o).recast g := by
  rw [push, top_recast, size_recast, push, recast, recast, Array.map_push, Scope.inside_recast]

theorem pop?_recast (s : Scopes) : (s.recast g).pop? = s.pop?.map (recast g) := by
  have hparent : (s.recast g).top.parent = s.top.parent := by
    rw [top_recast]
    rfl
  unfold pop?
  rw [hparent]
  split <;> rfl

theorem bind_recast (s : Scopes) (name : Text) (e : Entity) :
    (s.recast g).bind (g.names name) (e.recast g) = (s.bind name e).recast g := by
  have hothers (locals : List (Text × Entity)) :
      (locals.map fun d => (g.names d.1, d.2.recast g)).filter (fun d => d.1 != g.names name) =
        (locals.filter fun d => d.1 != name).map fun d => (g.names d.1, d.2.recast g) := by
    rw [List.filter_map]
    refine congrArg _ (List.filter_congr fun d _ => ?_)
    exact congrArg not (g.names.beq d.1 name)
  rw [bind, bind, recast, recast, mk.injEq]
  refine ⟨Array.ext_getElem? fun i => ?_, rfl⟩
  simp only [Array.getElem?_modify, Array.getElem?_map]
  split
  · cases s.all[i]? with
    | none => rfl
    | some scope =>
      simp only [Option.map_some, Scope.recast, hothers, List.map_cons]
  · rfl

theorem start_recast : start.recast g = start := by
  have hroot : (⟨#[.root], 0⟩ : Scopes).recast g = ⟨#[.root], 0⟩ := by
    rw [recast, List.map_toArray, List.map_singleton, Scope.root_recast]
  rw [start, ← push_recast g _ .nothing, hroot]
  rfl

end Scopes

end PeakLang
