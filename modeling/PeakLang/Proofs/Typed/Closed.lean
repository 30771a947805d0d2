import PeakLang.Proofs.Typed.Preserve

namespace PeakLang.Entity

/-- Whether an entity counts as built in. -/
def isBuiltin : Entity → Bool
  | var v => v.builtin
  | function f => f.builtin
  | type _ _ => true

theorem builtin_of_mem : ∀ e ∈ builtins, e.isBuiltin = true := by decide

end PeakLang.Entity

namespace PeakLang.Typed

/-- What is bound: a variable, a parameter or the variable of a loop, a function, or a class. -/
inductive Binder where
  | var (v : Variable)
  | function (f : Function)
  | cls (c : Class)
deriving DecidableEq

namespace Binder

/-- The identity of what is bound. -/
def id : Binder → Nat
  | var v => v.id
  | function f => f.id
  | cls c => c.ref.id

/-- Whether something built in is bound. -/
def builtin : Binder → Bool
  | var v => v.builtin
  | function f => f.builtin
  | cls _ => false

def class? : Binder → Option Class
  | cls c => some c
  | _ => none

def classes (env : List Binder) : List Class := env.filterMap class?

def ofVars (vs : List (Option Variable)) : List Binder := vs.filterMap fun v => v.map var

def ofFunction (f : Option Function) : List Binder := f.toList.map function

def ofClass (c : Option Class) : List Binder := c.toList.map cls

theorem mem_classes {env : List Binder} {c : Class} : c ∈ classes env ↔ .cls c ∈ env := by
  rw [classes, List.mem_filterMap]
  constructor
  · rintro ⟨b, hb, hclass⟩
    cases b with
    | cls => cases hclass; exact hb
    | var | function => cases hclass
  · exact fun h => ⟨_, h, rfl⟩

@[simp] theorem classes_append (env env' : List Binder) :
    classes (env ++ env') = classes env ++ classes env' :=
  List.filterMap_append

theorem classes_subset {env env' : List Binder} (h : env ⊆ env') : classes env ⊆ classes env' :=
  fun _ hc => mem_classes.mpr (h (mem_classes.mp hc))

@[simp] theorem classes_ofVars (vs : List (Option Variable)) : classes (ofVars vs) = [] := by
  induction vs with
  | nil => rfl
  | cons v rest ih => cases v <;> exact ih

@[simp] theorem classes_ofFunction (f : Option Function) : classes (ofFunction f) = [] := by
  cases f <;> rfl

@[simp] theorem classes_ofClass (c : Option Class) : classes (ofClass c) = c.toList := by
  cases c <;> rfl

end Binder

theorem MemberRule.mono {classes classes' : List Class} {object result : Ty} {field : Option Field}
    {method : Option Method} (h : MemberRule classes object field method result)
    (hsub : classes ⊆ classes') : MemberRule classes' object field method result := by
  cases h with
  | field hclass hfield => exact .field (hsub hclass) hfield
  | method hclass hmethod => exact .method (hsub hclass) hmethod

namespace Expr

mutual

/-- Whether every reference in an expression leads to something built in or to one of the binders in
scope. A class that is made, or whose members are used, is one of them. -/
def Closed (env : List Binder) : Expr → Prop
  | missing | int _ | float _ | string _ | bool _ | emptyArray _ => True
  | var v => ∃ w, v = some w ∧ (Entity.var w ∈ Entity.builtins ∨ .var w ∈ env)
  | function f => ∃ g, f = some g ∧ (Entity.function g ∈ Entity.builtins ∨ .function g ∈ env)
  | cls c type => ∃ k, .cls k ∈ env ∧ c = some k.ref ∧ type = k.constructor.type
  | self c => ∃ k, .cls k ∈ env ∧ c = some k.ref
  | unary _ operand _ => operand.Closed env
  | binary _ left right _ => left.Closed env ∧ right.Closed env
  | conditional test consequent alternate _ =>
    test.Closed env ∧ consequent.Closed env ∧ alternate.Closed env
  | call callee args _ => callee.Closed env ∧ ClosedAll env args
  | index object i _ => object.Closed env ∧ i.Closed env
  | member object field method type =>
    object.Closed env ∧ MemberRule (Binder.classes env) object.type field method type
  | array elements _ => ClosedAll env elements

def ClosedAll (env : List Binder) : List Expr → Prop
  | [] => True
  | e :: rest => e.Closed env ∧ ClosedAll env rest

end

end Expr

/-- What a statement binds for the statements after it. -/
def Stmt.binders : Stmt → List Binder
  | .declare v _ => Binder.ofVars [v]
  | .function f _ _ => Binder.ofFunction f
  | .cls c _ => Binder.ofClass c
  | _ => []

mutual

/-- Whether every reference in a statement leads to something built in or to a binder in scope, where
`env` is in scope before the statement. -/
def Stmt.Closed (env : List Binder) : Stmt → Prop
  | .missing | .missingCall | .leave => True
  | .declare _ init => init.Closed env
  | .function f params body =>
    Stmt.ClosedAll (Binder.ofVars params ++ (Binder.ofFunction f ++ env)) body
  | .cls c methods => MethodBody.ClosedAll (Binder.ofClass c ++ env) methods
  | .assign target source => target.Closed env ∧ source.Closed env
  | .bump _ target => target.Closed env
  | .branch test consequent alternate =>
    test.Closed env ∧ Stmt.ClosedAll env consequent ∧ Stmt.ClosedAll env alternate
  | .shortBranch test consequent => test.Closed env ∧ Stmt.ClosedAll env consequent
  | .loop test body => test.Closed env ∧ Stmt.ClosedAll env body
  | .forEach v collection body =>
    collection.Closed env ∧ Stmt.ClosedAll (Binder.ofVars [v] ++ env) body
  | .ret value => value.Closed env
  | .print value => value.Closed env
  | .call callee args _ => callee.Closed env ∧ Expr.ClosedAll env args

def MethodBody.Closed (env : List Binder) : MethodBody → Prop
  | .mk _ params body => Stmt.ClosedAll (Binder.ofVars params ++ env) body

def Stmt.ClosedAll (env : List Binder) : List Stmt → Prop
  | [] => True
  | s :: rest => s.Closed env ∧ Stmt.ClosedAll (s.binders ++ env) rest

def MethodBody.ClosedAll (env : List Binder) : List MethodBody → Prop
  | [] => True
  | m :: rest => m.Closed env ∧ MethodBody.ClosedAll env rest

end

mutual

/-- Everything that a statement binds, at any depth. -/
def Stmt.bound : Stmt → List Binder
  | .declare v _ => Binder.ofVars [v]
  | .function f params body => Binder.ofFunction f ++ (Binder.ofVars params ++ Stmt.boundInAll body)
  | .cls c methods => Binder.ofClass c ++ MethodBody.boundInAll methods
  | .branch _ consequent alternate => Stmt.boundInAll consequent ++ Stmt.boundInAll alternate
  | .shortBranch _ body | .loop _ body => Stmt.boundInAll body
  | .forEach v _ body => Binder.ofVars [v] ++ Stmt.boundInAll body
  | _ => []

def MethodBody.bound : MethodBody → List Binder
  | .mk _ params body => Binder.ofVars params ++ Stmt.boundInAll body

def Stmt.boundInAll : List Stmt → List Binder
  | [] => []
  | s :: rest => s.bound ++ Stmt.boundInAll rest

def MethodBody.boundInAll : List MethodBody → List Binder
  | [] => []
  | m :: rest => m.bound ++ MethodBody.boundInAll rest

end

/-- Whether what is bound is no class that lists a method that is missing. -/
def Binder.isWhole : Binder → Bool
  | cls c => c.isWhole
  | _ => true

/-- Whether no class that a program declares lists a method that is missing. -/
def Program.isWhole (program : Program) : Bool := (Stmt.boundInAll program).all Binder.isWhole

/-- A program is closed: every reference leads somewhere, nothing is bound twice, and nothing built in
is bound. -/
structure Program.Closed (program : Program) : Prop where
  references : Stmt.ClosedAll [] program
  unique : ((Stmt.boundInAll program).map Binder.id).Nodup
  own : ∀ b ∈ Stmt.boundInAll program, b.builtin = false

section Scope

variable {env env' : List Binder}

namespace Expr

mutual

theorem Closed.mono (e : Expr) (h : e.Closed env) (hsub : env ⊆ env') : e.Closed env' := by
  cases e with
  | missing | int | float | string | bool | emptyArray => trivial
  | var v =>
    obtain ⟨w, hw, hin⟩ := h
    exact ⟨w, hw, hin.imp_right fun hw => hsub hw⟩
  | function f =>
    obtain ⟨g, hg, hin⟩ := h
    exact ⟨g, hg, hin.imp_right fun hg => hsub hg⟩
  | cls c type =>
    obtain ⟨k, hk, hc⟩ := h
    exact ⟨k, hsub hk, hc⟩
  | self c =>
    obtain ⟨k, hk, hc⟩ := h
    exact ⟨k, hsub hk, hc⟩
  | unary op operand type => exact Closed.mono operand h hsub
  | binary op left right type => exact ⟨Closed.mono left h.1 hsub, Closed.mono right h.2 hsub⟩
  | conditional test consequent alternate type =>
    exact ⟨Closed.mono test h.1 hsub, Closed.mono consequent h.2.1 hsub,
      Closed.mono alternate h.2.2 hsub⟩
  | call callee args type => exact ⟨Closed.mono callee h.1 hsub, ClosedAll.mono args h.2 hsub⟩
  | index object i type => exact ⟨Closed.mono object h.1 hsub, Closed.mono i h.2 hsub⟩
  | member object field method type =>
    exact ⟨Closed.mono object h.1 hsub, h.2.mono (Binder.classes_subset hsub)⟩
  | array elements type => exact ClosedAll.mono elements h hsub

theorem ClosedAll.mono (es : List Expr) (h : ClosedAll env es) (hsub : env ⊆ env') :
    ClosedAll env' es := by
  cases es with
  | nil => trivial
  | cons e rest => exact ⟨Closed.mono e h.1 hsub, ClosedAll.mono rest h.2 hsub⟩

end

mutual

/-- The parts of a closed expression are closed. -/
theorem Closed.parts (e : Expr) (h : e.Closed env) : ∀ x ∈ e.parts, x.Closed env := by
  cases e with
  | unary op operand type =>
    exact List.forall_mem_cons.mpr ⟨h, Closed.parts operand h⟩
  | binary op left right type =>
    refine List.forall_mem_cons.mpr ⟨h, List.forall_mem_append.mpr ?_⟩
    exact ⟨Closed.parts left h.1, Closed.parts right h.2⟩
  | conditional test consequent alternate type =>
    refine List.forall_mem_cons.mpr ⟨h, List.forall_mem_append.mpr ?_⟩
    exact ⟨Closed.parts test h.1, List.forall_mem_append.mpr
      ⟨Closed.parts consequent h.2.1, Closed.parts alternate h.2.2⟩⟩
  | call callee args type =>
    refine List.forall_mem_cons.mpr ⟨h, List.forall_mem_append.mpr ?_⟩
    exact ⟨Closed.parts callee h.1, ClosedAll.parts args h.2⟩
  | index object i type =>
    refine List.forall_mem_cons.mpr ⟨h, List.forall_mem_append.mpr ?_⟩
    exact ⟨Closed.parts object h.1, Closed.parts i h.2⟩
  | member object field method type =>
    exact List.forall_mem_cons.mpr ⟨h, Closed.parts object h.1⟩
  | array elements type =>
    exact List.forall_mem_cons.mpr ⟨h, ClosedAll.parts elements h⟩
  | _ => exact List.forall_mem_singleton.mpr h

theorem ClosedAll.parts (es : List Expr) (h : ClosedAll env es) :
    ∀ x ∈ partsOfAll es, x.Closed env := by
  cases es with
  | nil => exact fun _ hx => absurd hx List.not_mem_nil
  | cons e rest =>
    exact List.forall_mem_append.mpr ⟨Closed.parts e h.1, ClosedAll.parts rest h.2⟩

end

end Expr

theorem append_subset_append (binders : List Binder) (h : env ⊆ env') :
    binders ++ env ⊆ binders ++ env' :=
  List.append_subset.mpr
    ⟨List.subset_append_left _ _, List.subset_append_of_subset_right _ h⟩

mutual

theorem Stmt.Closed.mono (s : Stmt) {env env' : List Binder} (h : s.Closed env) (hsub : env ⊆ env') :
    s.Closed env' := by
  cases s with
  | missing | missingCall | leave => trivial
  | declare v init => exact Expr.Closed.mono init h hsub
  | function f params body =>
    exact Stmt.ClosedAll.mono body h (append_subset_append _ (append_subset_append _ hsub))
  | cls c methods => exact MethodBody.ClosedAll.mono methods h (append_subset_append _ hsub)
  | assign target source => exact ⟨h.1.mono target hsub, h.2.mono source hsub⟩
  | bump op target => exact Expr.Closed.mono target h hsub
  | branch test consequent alternate =>
    exact ⟨h.1.mono test hsub, Stmt.ClosedAll.mono consequent h.2.1 hsub,
      Stmt.ClosedAll.mono alternate h.2.2 hsub⟩
  | shortBranch test consequent =>
    exact ⟨h.1.mono test hsub, Stmt.ClosedAll.mono consequent h.2 hsub⟩
  | loop test body => exact ⟨h.1.mono test hsub, Stmt.ClosedAll.mono body h.2 hsub⟩
  | forEach v collection body =>
    exact ⟨h.1.mono collection hsub,
      Stmt.ClosedAll.mono body h.2 (append_subset_append _ hsub)⟩
  | ret value => exact Expr.Closed.mono value h hsub
  | print value => exact Expr.Closed.mono value h hsub
  | call callee args type => exact ⟨h.1.mono callee hsub, h.2.mono args hsub⟩

theorem MethodBody.Closed.mono (m : MethodBody) {env env' : List Binder} (h : m.Closed env)
    (hsub : env ⊆ env') : m.Closed env' := by
  obtain ⟨m, params, body⟩ := m
  exact Stmt.ClosedAll.mono body h (append_subset_append _ hsub)

theorem Stmt.ClosedAll.mono (ss : List Stmt) {env env' : List Binder} (h : Stmt.ClosedAll env ss)
    (hsub : env ⊆ env') : Stmt.ClosedAll env' ss := by
  cases ss with
  | nil => trivial
  | cons s rest =>
    exact ⟨Stmt.Closed.mono s h.1 hsub, Stmt.ClosedAll.mono rest h.2 (append_subset_append _ hsub)⟩

theorem MethodBody.ClosedAll.mono (ms : List MethodBody) {env env' : List Binder}
    (h : MethodBody.ClosedAll env ms) (hsub : env ⊆ env') : MethodBody.ClosedAll env' ms := by
  cases ms with
  | nil => trivial
  | cons m rest => exact ⟨MethodBody.Closed.mono m h.1 hsub, MethodBody.ClosedAll.mono rest h.2 hsub⟩

end

/-- What a statement binds for the statements after it is among what it binds. -/
theorem Stmt.binders_subset_bound (s : Stmt) : s.binders ⊆ s.bound := by
  cases s with
  | declare v init => exact List.Subset.refl _
  | function f params body => exact List.subset_append_left _ _
  | cls c methods => exact List.subset_append_left _ _
  | _ => exact List.nil_subset _

/-- The expressions of a closed statement are closed. -/
theorem Stmt.Closed.exprs {s : Stmt} (h : s.Closed env) : ∀ e ∈ s.exprs, e.Closed env := by
  cases s with
  | assign target source =>
    exact List.forall_mem_cons.mpr ⟨h.1, List.forall_mem_singleton.mpr h.2⟩
  | declare v init => exact List.forall_mem_singleton.mpr h
  | bump op target => exact List.forall_mem_singleton.mpr h
  | branch test consequent alternate => exact List.forall_mem_singleton.mpr h.1
  | shortBranch test consequent => exact List.forall_mem_singleton.mpr h.1
  | loop test body => exact List.forall_mem_singleton.mpr h.1
  | forEach v collection body => exact List.forall_mem_singleton.mpr h.1
  | ret value => exact List.forall_mem_singleton.mpr h
  | print value => exact List.forall_mem_singleton.mpr h
  | call callee args type => exact List.forall_mem_singleton.mpr h
  | missing | missingCall | function | cls | leave => exact fun _ he => absurd he List.not_mem_nil

mutual

/-- The statements in a closed statement are closed in all that it binds. -/
theorem Stmt.Closed.parts (s : Stmt) (h : s.Closed env) (hown : s.bound ⊆ env) :
    ∀ t ∈ s.parts, t.Closed env := by
  cases s with
  | function f params body =>
    obtain ⟨hf, hinside⟩ := List.append_subset.mp hown
    obtain ⟨hparams, hbody⟩ := List.append_subset.mp hinside
    have hsub := List.append_subset.mpr ⟨hparams, List.append_subset.mpr ⟨hf, List.Subset.refl env⟩⟩
    exact List.forall_mem_cons.mpr ⟨h, Stmt.ClosedAll.parts body (Stmt.ClosedAll.mono body h hsub) hbody⟩
  | cls c methods =>
    obtain ⟨hc, hmethods⟩ := List.append_subset.mp hown
    have hsub := List.append_subset.mpr ⟨hc, List.Subset.refl env⟩
    exact List.forall_mem_cons.mpr
      ⟨h, MethodBody.ClosedAll.parts methods (MethodBody.ClosedAll.mono methods h hsub) hmethods⟩
  | branch test consequent alternate =>
    obtain ⟨hconsequent, halternate⟩ := List.append_subset.mp hown
    refine List.forall_mem_cons.mpr ⟨h, List.forall_mem_append.mpr ?_⟩
    exact ⟨Stmt.ClosedAll.parts consequent h.2.1 hconsequent,
      Stmt.ClosedAll.parts alternate h.2.2 halternate⟩
  | shortBranch test consequent =>
    exact List.forall_mem_cons.mpr ⟨h, Stmt.ClosedAll.parts consequent h.2 hown⟩
  | loop test body =>
    exact List.forall_mem_cons.mpr ⟨h, Stmt.ClosedAll.parts body h.2 hown⟩
  | forEach v collection body =>
    obtain ⟨hv, hbody⟩ := List.append_subset.mp hown
    have hsub := List.append_subset.mpr ⟨hv, List.Subset.refl env⟩
    exact List.forall_mem_cons.mpr
      ⟨h, Stmt.ClosedAll.parts body (Stmt.ClosedAll.mono body h.2 hsub) hbody⟩
  | _ => exact List.forall_mem_singleton.mpr h

theorem MethodBody.Closed.parts (m : MethodBody) (h : m.Closed env) (hown : m.bound ⊆ env) :
    ∀ t ∈ m.parts, t.Closed env := by
  obtain ⟨m, params, body⟩ := m
  obtain ⟨hparams, hbody⟩ := List.append_subset.mp hown
  have hsub := List.append_subset.mpr ⟨hparams, List.Subset.refl env⟩
  exact Stmt.ClosedAll.parts body (Stmt.ClosedAll.mono body h hsub) hbody

theorem Stmt.ClosedAll.parts (ss : List Stmt) (h : Stmt.ClosedAll env ss)
    (hown : Stmt.boundInAll ss ⊆ env) : ∀ t ∈ Stmt.partsOfAll ss, t.Closed env := by
  cases ss with
  | nil => exact fun _ ht => absurd ht List.not_mem_nil
  | cons s rest =>
    obtain ⟨hs, hrest⟩ := List.append_subset.mp hown
    have hbinders := List.Subset.trans s.binders_subset_bound hs
    have hsub := List.append_subset.mpr ⟨hbinders, List.Subset.refl env⟩
    exact List.forall_mem_append.mpr ⟨Stmt.Closed.parts s h.1 hs,
      Stmt.ClosedAll.parts rest (Stmt.ClosedAll.mono rest h.2 hsub) hrest⟩

theorem MethodBody.ClosedAll.parts (ms : List MethodBody) (h : MethodBody.ClosedAll env ms)
    (hown : MethodBody.boundInAll ms ⊆ env) : ∀ t ∈ MethodBody.partsOfAll ms, t.Closed env := by
  cases ms with
  | nil => exact fun _ ht => absurd ht List.not_mem_nil
  | cons m rest =>
    obtain ⟨hm, hrest⟩ := List.append_subset.mp hown
    exact List.forall_mem_append.mpr ⟨MethodBody.Closed.parts m h.1 hm,
      MethodBody.ClosedAll.parts rest h.2 hrest⟩

end

/-- Every expression of a closed program is closed in all that the program binds. -/
theorem Program.Closed.exprs {program : Program} (h : program.Closed) {s : Stmt}
    (hs : s ∈ Stmt.partsOfAll program) {e : Expr} (he : e ∈ s.exprs) :
    e.Closed (Stmt.boundInAll program) := by
  have hall := Stmt.ClosedAll.mono program h.references (List.nil_subset (Stmt.boundInAll program))
  exact (Stmt.ClosedAll.parts program hall (List.Subset.refl _) s hs).exprs e he

/-- What is in scope after statements in a row. -/
def Stmt.extend (env : List Binder) : List Stmt → List Binder
  | [] => env
  | s :: rest => Stmt.extend (s.binders ++ env) rest

theorem Stmt.subset_extend (env : List Binder) (ss : List Stmt) : env ⊆ Stmt.extend env ss := by
  induction ss generalizing env with
  | nil => exact List.Subset.refl env
  | cons s rest ih => exact List.Subset.trans (List.subset_append_right _ _) (ih _)

/-- Statements after others are closed in what is in scope there. -/
theorem Stmt.closedAll_append {ss ts : List Stmt} (hs : Stmt.ClosedAll env ss)
    (ht : Stmt.ClosedAll (Stmt.extend env ss) ts) : Stmt.ClosedAll env (ss ++ ts) := by
  induction ss generalizing env with
  | nil => exact ht
  | cons s rest ih => exact ⟨hs.1, ih hs.2 ht⟩

end Scope

section Simplify

variable {classes : List Class} {env : List Binder}

namespace Expr

variable {op : TokenKind} {x y e : Expr} {type : Ty}

theorem closed_of_isLiteral (h : e.isLiteral = true) : e.Closed env := by
  cases e with
  | int | float | string | bool => trivial
  | _ => cases h

theorem simplifiedBinary_closed (hx : x.Closed env) (hy : y.Closed env) :
    (simplifiedBinary op x y type).Closed env := by
  unfold simplifiedBinary
  split
  · rename_i e hlogical
    rcases logical?_cases hlogical with rfl | rfl
    · exact hx
    · exact hy
  · split
    · cases hfold : Fold.binary op x y with
      | none => exact ⟨hx, hy⟩
      | some e => exact closed_of_isLiteral (Fold.binary_isLiteral hfold)
    · cases hrule : algebraic? op x y type with
      | none => exact ⟨hx, hy⟩
      | some e =>
        cases algebraic?_identity hrule with
        | rightZero | rightOne | leftNothing | powerOfOne => exact hx
        | leftZero | leftOne | rightNothing | opposite => exact hy
        | zeroPower =>
          rw [Option.getD_some, oneOf]
          split <;> trivial

theorem simplifiedUnary_closed (hx : x.Closed env) : (simplifiedUnary op x type).Closed env := by
  unfold simplifiedUnary
  cases hfold : Fold.unary op x with
  | none => exact hx
  | some e => exact closed_of_isLiteral (Fold.unary_isLiteral hfold)

theorem simplifiedConditional_closed {test consequent alternate : Expr} (htest : test.Closed env)
    (hconsequent : consequent.Closed env) (halternate : alternate.Closed env) :
    (simplifiedConditional test consequent alternate type).Closed env := by
  unfold simplifiedConditional
  split
  · exact hconsequent
  · exact halternate
  · exact ⟨htest, hconsequent, halternate⟩

mutual

/-- Simplifying an expression makes no new reference. An object keeps its type, so its members still
belong to a class in scope. -/
theorem Closed.simplify (e : Expr) (htyped : e.WellTyped classes) (h : e.Closed env) :
    e.simplify.Closed env := by
  cases e with
  | unary op operand type => exact simplifiedUnary_closed (Closed.simplify operand htyped.1 h)
  | binary op left right type =>
    exact simplifiedBinary_closed (Closed.simplify left htyped.1 h.1)
      (Closed.simplify right htyped.2.1 h.2)
  | conditional test consequent alternate type =>
    exact simplifiedConditional_closed (Closed.simplify test htyped.1 h.1)
      (Closed.simplify consequent htyped.2.1 h.2.1) (Closed.simplify alternate htyped.2.2.1 h.2.2)
  | call callee args type =>
    exact ⟨Closed.simplify callee htyped.1 h.1, ClosedAll.simplify args htyped.2.1 h.2⟩
  | index object i type =>
    exact ⟨Closed.simplify object htyped.1 h.1, Closed.simplify i htyped.2.1 h.2⟩
  | member object field method type =>
    obtain ⟨hobject, hrule⟩ := h
    rw [← (object.simplify_replaces htyped.1).type_eq] at hrule
    exact ⟨Closed.simplify object htyped.1 hobject, hrule⟩
  | array elements type => exact ClosedAll.simplify elements htyped.2.1 h
  | _ => exact h

theorem ClosedAll.simplify (es : List Expr) (htyped : WellTypedAll classes es)
    (h : ClosedAll env es) : ClosedAll env (simplifyAll es) := by
  cases es with
  | nil => trivial
  | cons e rest => exact ⟨Closed.simplify e htyped.1 h.1, ClosedAll.simplify rest htyped.2 h.2⟩

end

/-- A return may lack a value, which then leads nowhere. -/
theorem Closed.simplify_returned {function : Option Signature} (h : e.Closed env)
    (hrule : ReturnRule classes function e) : e.simplify.Closed env := by
  obtain ⟨sig, -, ⟨-, rfl⟩ | ⟨-, hvalue, -⟩⟩ := hrule
  · exact h
  · exact Closed.simplify e hvalue h

end Expr

/-- A single statement is closed in a row, and binds what it binds alone. -/
theorem Stmt.closedAll_singleton {s : Stmt} {binders : List Binder} (h : s.Closed env)
    (hbinders : s.binders = binders) :
    Stmt.ClosedAll env [s] ∧ binders ++ env ⊆ Stmt.extend env [s] :=
  ⟨⟨h, trivial⟩, hbinders ▸ List.Subset.refl _⟩

mutual

/-- What a closed statement simplifies to is closed, and binds at least what the statement bound. -/
theorem Stmt.Closed.simplify (s : Stmt) {function : Option Signature} {env : List Binder}
    (htyped : s.WellTyped classes function) (h : s.Closed env) :
    Stmt.ClosedAll env s.simplify ∧ s.binders ++ env ⊆ Stmt.extend env s.simplify := by
  -- A body that takes the place of a statement binds more than the statement did.
  have hbody {body : List Stmt} (hbody : Stmt.ClosedAll env body) :
      Stmt.ClosedAll env body ∧ [] ++ env ⊆ Stmt.extend env body :=
    ⟨hbody, Stmt.subset_extend env body⟩
  cases s with
  | missing | missingCall => cases htyped
  | declare v init => exact Stmt.closedAll_singleton (Expr.Closed.simplify init htyped.1 h) rfl
  | function f params body =>
    obtain ⟨g, sig, -, -, -, -, hbody⟩ := htyped
    exact Stmt.closedAll_singleton (Stmt.ClosedAll.simplify body hbody h) rfl
  | cls c methods =>
    obtain ⟨k, -, -, -, -, hbodies⟩ := htyped
    exact Stmt.closedAll_singleton (MethodBody.ClosedAll.simplify methods hbodies h) rfl
  | assign target source =>
    rw [Stmt.simplify]
    split
    case isTrue => exact hbody trivial
    case isFalse =>
      exact Stmt.closedAll_singleton
        ⟨h.1.simplify target htyped.1, h.2.simplify source htyped.2.1⟩ rfl
  | bump op target => exact Stmt.closedAll_singleton (Expr.Closed.simplify target htyped.1 h) rfl
  | branch test consequent alternate =>
    have htest := h.1.simplify test htyped.1
    have hconsequent := Stmt.ClosedAll.simplify consequent htyped.2.2.1 h.2.1
    have halternate := Stmt.ClosedAll.simplify alternate htyped.2.2.2 h.2.2
    rw [Stmt.simplify]
    split
    case h_1 => exact hbody hconsequent
    case h_2 => exact hbody halternate
    case h_3 => exact Stmt.closedAll_singleton ⟨htest, hconsequent, halternate⟩ rfl
  | shortBranch test consequent =>
    have htest := h.1.simplify test htyped.1
    have hconsequent := Stmt.ClosedAll.simplify consequent htyped.2.2 h.2
    rw [Stmt.simplify]
    split
    case h_1 => exact hbody hconsequent
    case h_2 => exact hbody trivial
    case h_3 => exact Stmt.closedAll_singleton ⟨htest, hconsequent⟩ rfl
  | loop test body =>
    have htest := h.1.simplify test htyped.1
    have hloop := Stmt.ClosedAll.simplify body htyped.2.2 h.2
    rw [Stmt.simplify]
    split
    case h_1 => exact hbody trivial
    case h_2 => exact Stmt.closedAll_singleton ⟨htest, hloop⟩ rfl
  | forEach v collection body =>
    have hcollection := h.1.simplify collection htyped.1
    have hloop := Stmt.ClosedAll.simplify body htyped.2.2 h.2
    rw [Stmt.simplify]
    split
    case h_1 => exact hbody trivial
    case h_2 => exact Stmt.closedAll_singleton ⟨hcollection, hloop⟩ rfl
  | leave => exact Stmt.closedAll_singleton trivial rfl
  | ret value => exact Stmt.closedAll_singleton (Expr.Closed.simplify_returned h htyped) rfl
  | print value => exact Stmt.closedAll_singleton (Expr.Closed.simplify value htyped h) rfl
  | call callee args type =>
    exact Stmt.closedAll_singleton
      ⟨h.1.simplify callee htyped.1, h.2.simplify args htyped.2.1⟩ rfl

theorem MethodBody.Closed.simplify (m : MethodBody) {env : List Binder}
    (htyped : m.WellTyped classes) (h : m.Closed env) : m.simplify.Closed env := by
  obtain ⟨m, params, body⟩ := m
  obtain ⟨n, sig, -, -, -, hbody⟩ := htyped
  exact Stmt.ClosedAll.simplify body hbody h

theorem Stmt.ClosedAll.simplify (ss : List Stmt) {function : Option Signature} {env : List Binder}
    (htyped : Stmt.WellTypedAll classes function ss) (h : Stmt.ClosedAll env ss) :
    Stmt.ClosedAll env (Stmt.simplifyAll ss) := by
  cases ss with
  | nil => trivial
  | cons s rest =>
    obtain ⟨hfirst, hbinders⟩ := Stmt.Closed.simplify s htyped.1 h.1
    have hrest := Stmt.ClosedAll.simplify rest htyped.2 h.2
    exact Stmt.closedAll_append hfirst (hrest.mono _ hbinders)

theorem MethodBody.ClosedAll.simplify (ms : List MethodBody) {env : List Binder}
    (htyped : MethodBody.WellTypedAll classes ms) (h : MethodBody.ClosedAll env ms) :
    MethodBody.ClosedAll env (MethodBody.simplifyAll ms) := by
  cases ms with
  | nil => trivial
  | cons m rest =>
    exact ⟨MethodBody.Closed.simplify m htyped.1 h.1,
      MethodBody.ClosedAll.simplify rest htyped.2 h.2⟩

end

theorem Stmt.boundInAll_append (ss ts : List Stmt) :
    Stmt.boundInAll (ss ++ ts) = Stmt.boundInAll ss ++ Stmt.boundInAll ts := by
  induction ss with
  | nil => rfl
  | cons s rest ih =>
    rw [List.cons_append, Stmt.boundInAll, Stmt.boundInAll, ih, List.append_assoc]

theorem Stmt.boundInAll_singleton (s : Stmt) : Stmt.boundInAll [s] = s.bound := List.append_nil _

mutual

/-- What is left of a statement binds nothing new, and nothing twice. -/
theorem Stmt.bound_simplify (s : Stmt) : (Stmt.boundInAll s.simplify).Sublist s.bound := by
  cases s with
  | function f params body =>
    rw [Stmt.simplify, Stmt.boundInAll_singleton]
    exact List.Sublist.append_left (List.Sublist.append_left (Stmt.boundInAll_simplify body) _) _
  | cls c methods =>
    rw [Stmt.simplify, Stmt.boundInAll_singleton]
    exact List.Sublist.append_left (MethodBody.boundInAll_simplify methods) _
  | assign target source =>
    rw [Stmt.simplify]
    split <;> exact List.nil_sublist _
  | branch test consequent alternate =>
    have hconsequent := Stmt.boundInAll_simplify consequent
    have halternate := Stmt.boundInAll_simplify alternate
    rw [Stmt.simplify]
    split
    case h_1 => exact List.sublist_append_of_sublist_left hconsequent
    case h_2 => exact List.sublist_append_of_sublist_right halternate
    case h_3 =>
      rw [Stmt.boundInAll_singleton]
      exact List.Sublist.append hconsequent halternate
  | shortBranch test consequent =>
    have hconsequent := Stmt.boundInAll_simplify consequent
    rw [Stmt.simplify]
    split
    case h_1 => exact hconsequent
    case h_2 => exact List.nil_sublist _
    case h_3 =>
      rw [Stmt.boundInAll_singleton]
      exact hconsequent
  | loop test body =>
    rw [Stmt.simplify]
    split
    case h_1 => exact List.nil_sublist _
    case h_2 =>
      rw [Stmt.boundInAll_singleton]
      exact Stmt.boundInAll_simplify body
  | forEach v collection body =>
    rw [Stmt.simplify]
    split
    case h_1 => exact List.nil_sublist _
    case h_2 =>
      rw [Stmt.boundInAll_singleton]
      exact List.Sublist.append_left (Stmt.boundInAll_simplify body) _
  | declare v init =>
    rw [Stmt.simplify, Stmt.boundInAll_singleton]
    exact List.Sublist.refl _
  | _ => exact List.nil_sublist _

theorem MethodBody.bound_simplify (m : MethodBody) : m.simplify.bound.Sublist m.bound := by
  obtain ⟨m, params, body⟩ := m
  exact List.Sublist.append_left (Stmt.boundInAll_simplify body) _

theorem Stmt.boundInAll_simplify (ss : List Stmt) :
    (Stmt.boundInAll (Stmt.simplifyAll ss)).Sublist (Stmt.boundInAll ss) := by
  cases ss with
  | nil => exact List.Sublist.refl _
  | cons s rest =>
    rw [Stmt.simplifyAll, Stmt.boundInAll_append]
    exact List.Sublist.append (Stmt.bound_simplify s) (Stmt.boundInAll_simplify rest)

theorem MethodBody.boundInAll_simplify (ms : List MethodBody) :
    (MethodBody.boundInAll (MethodBody.simplifyAll ms)).Sublist (MethodBody.boundInAll ms) := by
  cases ms with
  | nil => exact List.Sublist.refl _
  | cons m rest =>
    exact List.Sublist.append (MethodBody.bound_simplify m) (MethodBody.boundInAll_simplify rest)

end

/-- Simplifying keeps a program closed. -/
theorem Program.Closed.simplify {program : Program} (htyped : program.WellTyped)
    (h : program.Closed) : program.simplify.Closed where
  references := Stmt.ClosedAll.simplify program htyped h.references
  unique := h.unique.sublist ((Stmt.boundInAll_simplify program).map Binder.id)
  own b hb := h.own b ((Stmt.boundInAll_simplify program).subset hb)

/-- Simplifying brings in no class. -/
theorem Program.isWhole_simplify {program : Program} (h : program.isWhole = true) :
    program.simplify.isWhole = true := by
  refine List.all_eq_true.mpr fun b hb => ?_
  exact List.all_eq_true.mp h b ((Stmt.boundInAll_simplify program).subset hb)

end Simplify

section Restrict

variable {classes classes' : List Class} {env : List Binder}

namespace Expr

mutual

/-- An expression that is closed obeys the rules where only the classes in scope are declared. -/
theorem WellTyped.restrict (e : Expr) (h : e.WellTyped classes) (hclosed : e.Closed env)
    (hsub : Binder.classes env ⊆ classes') : e.WellTyped classes' := by
  cases e with
  | missing | int | float | string | bool | var | function | emptyArray => exact h
  | self c => exact h
  | cls c type =>
    obtain ⟨k, hk, hc⟩ := hclosed
    exact ⟨k, hsub (Binder.mem_classes.mpr hk), hc⟩
  | unary op operand type => exact ⟨WellTyped.restrict operand h.1 hclosed hsub, h.2⟩
  | binary op left right type =>
    exact ⟨WellTyped.restrict left h.1 hclosed.1 hsub,
      WellTyped.restrict right h.2.1 hclosed.2 hsub, h.2.2⟩
  | conditional test consequent alternate type =>
    exact ⟨WellTyped.restrict test h.1 hclosed.1 hsub,
      WellTyped.restrict consequent h.2.1 hclosed.2.1 hsub,
      WellTyped.restrict alternate h.2.2.1 hclosed.2.2 hsub, h.2.2.2⟩
  | call callee args type =>
    exact ⟨WellTyped.restrict callee h.1 hclosed.1 hsub,
      WellTypedAll.restrict args h.2.1 hclosed.2 hsub, h.2.2⟩
  | index object i type =>
    exact ⟨WellTyped.restrict object h.1 hclosed.1 hsub,
      WellTyped.restrict i h.2.1 hclosed.2 hsub, h.2.2⟩
  | member object field method type =>
    exact ⟨WellTyped.restrict object h.1 hclosed.1 hsub, hclosed.2.mono hsub⟩
  | array elements type =>
    exact ⟨h.1, WellTypedAll.restrict elements h.2.1 hclosed hsub, h.2.2⟩

theorem WellTypedAll.restrict (es : List Expr) (h : WellTypedAll classes es)
    (hclosed : ClosedAll env es) (hsub : Binder.classes env ⊆ classes') :
    WellTypedAll classes' es := by
  cases es with
  | nil => trivial
  | cons e rest =>
    exact ⟨WellTyped.restrict e h.1 hclosed.1 hsub, WellTypedAll.restrict rest h.2 hclosed.2 hsub⟩

end

end Expr

theorem Stmt.classes_binders_subset (s : Stmt) : Binder.classes s.binders ⊆ s.classes := by
  cases s with
  | cls c methods =>
    rw [Stmt.binders, Binder.classes_ofClass]
    exact List.subset_append_left _ _
  | declare v init =>
    rw [Stmt.binders, Binder.classes_ofVars]
    exact List.nil_subset _
  | function f params body =>
    rw [Stmt.binders, Binder.classes_ofFunction]
    exact List.nil_subset _
  | _ => exact List.nil_subset _

mutual

/-- A closed statement obeys the rules where only the classes in scope and its own are declared. -/
theorem Stmt.WellTyped.restrict (s : Stmt) {function : Option Signature} {env : List Binder}
    (h : s.WellTyped classes function) (hclosed : s.Closed env)
    (hsub : Binder.classes env ⊆ classes') (hown : s.classes ⊆ classes') :
    s.WellTyped classes' function := by
  cases s with
  | missing | missingCall => cases h
  | declare v init => exact ⟨h.1.restrict init hclosed hsub, h.2⟩
  | function f params body =>
    obtain ⟨g, sig, hg, hsig, hknown, hparams, hbody⟩ := h
    refine ⟨g, sig, hg, hsig, hknown, hparams, ?_⟩
    refine Stmt.WellTypedAll.restrict body hbody hclosed ?_ hown
    simpa using hsub
  | cls c methods =>
    obtain ⟨k, -, rfl, hknown, hmethods, hbodies⟩ := h
    rw [Stmt.classes, List.append_subset] at hown
    have hk : k ∈ classes' := hown.1 (Option.mem_toList.mpr rfl)
    refine ⟨k, hk, rfl, hknown, hmethods, ?_⟩
    refine MethodBody.WellTypedAll.restrict methods hbodies hclosed ?_ hown.2
    rw [Binder.classes_append, Binder.classes_ofClass]
    exact List.append_subset.mpr ⟨hown.1, hsub⟩
  | assign target source =>
    exact ⟨h.1.restrict target hclosed.1 hsub, h.2.1.restrict source hclosed.2 hsub, h.2.2⟩
  | bump op target => exact ⟨h.1.restrict target hclosed hsub, h.2⟩
  | branch test consequent alternate =>
    rw [Stmt.classes, List.append_subset] at hown
    exact ⟨h.1.restrict test hclosed.1 hsub, h.2.1,
      Stmt.WellTypedAll.restrict consequent h.2.2.1 hclosed.2.1 hsub hown.1,
      Stmt.WellTypedAll.restrict alternate h.2.2.2 hclosed.2.2 hsub hown.2⟩
  | shortBranch test consequent =>
    exact ⟨h.1.restrict test hclosed.1 hsub, h.2.1,
      Stmt.WellTypedAll.restrict consequent h.2.2 hclosed.2 hsub hown⟩
  | loop test body =>
    exact ⟨h.1.restrict test hclosed.1 hsub, h.2.1,
      Stmt.WellTypedAll.restrict body h.2.2 hclosed.2 hsub hown⟩
  | forEach v collection body =>
    refine ⟨h.1.restrict collection hclosed.1 hsub, h.2.1, ?_⟩
    refine Stmt.WellTypedAll.restrict body h.2.2 hclosed.2 ?_ hown
    simpa using hsub
  | leave => trivial
  | ret value =>
    obtain ⟨sig, hsig, hmissing | ⟨hresult, hvalue, hfits⟩⟩ := h
    · exact ⟨sig, hsig, .inl hmissing⟩
    · exact ⟨sig, hsig, .inr ⟨hresult, hvalue.restrict value hclosed hsub, hfits⟩⟩
  | print value => exact Expr.WellTyped.restrict value h hclosed hsub
  | call callee args type =>
    exact ⟨h.1.restrict callee hclosed.1 hsub, h.2.1.restrict args hclosed.2 hsub, h.2.2⟩

theorem MethodBody.WellTyped.restrict (m : MethodBody) {env : List Binder}
    (h : m.WellTyped classes) (hclosed : m.Closed env) (hsub : Binder.classes env ⊆ classes')
    (hown : m.classes ⊆ classes') : m.WellTyped classes' := by
  obtain ⟨m, params, body⟩ := m
  obtain ⟨n, sig, hn, hsig, hparams, hbody⟩ := h
  refine ⟨n, sig, hn, hsig, hparams, Stmt.WellTypedAll.restrict body hbody hclosed ?_ hown⟩
  simpa using hsub

theorem Stmt.WellTypedAll.restrict (ss : List Stmt) {function : Option Signature}
    {env : List Binder} (h : Stmt.WellTypedAll classes function ss) (hclosed : Stmt.ClosedAll env ss)
    (hsub : Binder.classes env ⊆ classes') (hown : Stmt.classesOfAll ss ⊆ classes') :
    Stmt.WellTypedAll classes' function ss := by
  cases ss with
  | nil => trivial
  | cons s rest =>
    rw [Stmt.classesOfAll, List.append_subset] at hown
    refine ⟨Stmt.WellTyped.restrict s h.1 hclosed.1 hsub hown.1, ?_⟩
    refine Stmt.WellTypedAll.restrict rest h.2 hclosed.2 ?_ hown.2
    rw [Binder.classes_append]
    exact List.append_subset.mpr ⟨List.Subset.trans s.classes_binders_subset hown.1, hsub⟩

theorem MethodBody.WellTypedAll.restrict (ms : List MethodBody) {env : List Binder}
    (h : MethodBody.WellTypedAll classes ms) (hclosed : MethodBody.ClosedAll env ms)
    (hsub : Binder.classes env ⊆ classes') (hown : MethodBody.classesOfAll ms ⊆ classes') :
    MethodBody.WellTypedAll classes' ms := by
  cases ms with
  | nil => trivial
  | cons m rest =>
    rw [MethodBody.classesOfAll, List.append_subset] at hown
    exact ⟨MethodBody.WellTyped.restrict m h.1 hclosed.1 hsub hown.1,
      MethodBody.WellTypedAll.restrict rest h.2 hclosed.2 hsub hown.2⟩

end

/-- A closed program that obeys the rules still obeys them after it was simplified, although some of
its classes may be gone. -/
theorem Program.WellTyped.simplify {program : Program} (h : program.WellTyped)
    (hclosed : program.Closed) : program.simplify.WellTyped :=
  Stmt.WellTypedAll.restrict program.simplify (Stmt.WellTypedAll.simplify program h)
    (hclosed.simplify h).references (List.nil_subset _) (List.Subset.refl _)

end Restrict

end PeakLang.Typed
