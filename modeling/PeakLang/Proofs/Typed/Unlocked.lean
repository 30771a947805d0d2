import PeakLang.Proofs.Recasting
import PeakLang.Proofs.Typed.Check

namespace PeakLang.Typed

variable (opens : Text → Bool)

namespace Expr

mutual

/-- An expression without the marks on its variables. -/
def unlocked : Expr → Expr
  | missing => .missing
  | int value => .int value
  | float value => .float value
  | string value => .string value
  | bool value => .bool value
  | var v => .var (v.map (Variable.unlocked opens))
  | function f => .function f
  | cls c type => .cls c type
  | self c => .self c
  | unary op operand type => .unary op operand.unlocked type
  | binary op left right type => .binary op left.unlocked right.unlocked type
  | conditional test consequent alternate type =>
    .conditional test.unlocked consequent.unlocked alternate.unlocked type
  | call callee args type => .call callee.unlocked (unlockedAll args) type
  | index object i type => .index object.unlocked i.unlocked type
  | member object field method type => .member object.unlocked field method type
  | array elements type => .array (unlockedAll elements) type
  | emptyArray type => .emptyArray type

def unlockedAll : List Expr → List Expr
  | [] => []
  | e :: rest => e.unlocked :: unlockedAll rest

end

mutual

theorem unlocked_none (e : Expr) : e.unlocked (fun _ => false) = e := by
  cases e with
  | var v => rw [unlocked, funext Variable.unlocked_none, Option.map_id']
  | unary op operand type => rw [unlocked, unlocked_none operand]
  | binary op left right type => rw [unlocked, unlocked_none left, unlocked_none right]
  | conditional test consequent alternate type =>
    rw [unlocked, unlocked_none test, unlocked_none consequent, unlocked_none alternate]
  | call callee args type => rw [unlocked, unlocked_none callee, unlockedAll_none args]
  | index object i type => rw [unlocked, unlocked_none object, unlocked_none i]
  | member object field method type => rw [unlocked, unlocked_none object]
  | array elements type => rw [unlocked, unlockedAll_none elements]
  | _ => rfl

theorem unlockedAll_none (es : List Expr) : unlockedAll (fun _ => false) es = es := by
  cases es with
  | nil => rfl
  | cons e rest => rw [unlockedAll, unlocked_none e, unlockedAll_none rest]

end

variable {op : TokenKind} {x y : Expr} {type : Ty}

@[simp]
theorem type_unlocked (e : Expr) : (e.unlocked opens).type = e.type := by
  cases e with
  | var v => cases v <;> rfl
  | _ => rfl

@[simp]
theorem isBool_unlocked (b : Bool) (e : Expr) : (e.unlocked opens).isBool b = e.isBool b := by
  cases e <;> rfl

@[simp]
theorem isZero_unlocked (e : Expr) : (e.unlocked opens).isZero = e.isZero := by
  cases e <;> rfl

@[simp]
theorem isOne_unlocked (e : Expr) : (e.unlocked opens).isOne = e.isOne := by
  cases e <;> rfl

@[simp]
theorem isLiteral_unlocked (e : Expr) : (e.unlocked opens).isLiteral = e.isLiteral := by
  cases e <;> rfl

theorem unlocked_of_isLiteral {e : Expr} (h : e.isLiteral = true) : e.unlocked opens = e := by
  cases e with
  | int | float | string | bool => rfl
  | _ => cases h

theorem logical?_unlocked :
    logical? op (x.unlocked opens) (y.unlocked opens) = (logical? op x y).map (unlocked opens) := by
  simp only [logical?, isBool_unlocked]
  split
  · split
    · rfl
    · split <;> rfl
  · split
    · rfl
    · split <;> rfl
  · rfl

theorem oneOf_unlocked (type : Ty) : (oneOf type).unlocked opens = oneOf type := by
  unfold oneOf
  split <;> rfl

theorem algebraic?_unlocked :
    algebraic? op (x.unlocked opens) (y.unlocked opens) type =
      (algebraic? op x y type).map (unlocked opens) := by
  simp only [algebraic?, isZero_unlocked, isOne_unlocked]
  split
  case h_6 => rfl
  all_goals
    simp only [apply_ite (Option.map (unlocked opens)), Option.map_some, Option.map_none, unlocked,
      oneOf_unlocked]

theorem simplifiedBinary_unlocked :
    simplifiedBinary op (x.unlocked opens) (y.unlocked opens) type =
      (simplifiedBinary op x y type).unlocked opens := by
  simp only [simplifiedBinary, logical?_unlocked, isLiteral_unlocked]
  cases logical? op x y with
  | some e => rfl
  | none =>
    simp only [Option.map_none]
    split
    · rename_i hliteral
      obtain ⟨hx, hy⟩ := Bool.and_eq_true_iff.mp hliteral
      rw [unlocked_of_isLiteral opens hx, unlocked_of_isLiteral opens hy]
      cases hfold : Fold.binary op x y with
      | none =>
        simp only [Option.getD_none, unlocked, unlocked_of_isLiteral opens hx,
          unlocked_of_isLiteral opens hy]
      | some e => exact (unlocked_of_isLiteral opens (Fold.binary_isLiteral hfold)).symm
    · rw [algebraic?_unlocked]
      cases algebraic? op x y type <;> rfl

theorem simplifiedUnary_unlocked :
    simplifiedUnary op (x.unlocked opens) type = (simplifiedUnary op x type).unlocked opens := by
  have hsame : Fold.unary op (x.unlocked opens) = Fold.unary op x := by cases x <;> rfl
  rw [simplifiedUnary, simplifiedUnary, hsame]
  cases hfold : Fold.unary op x with
  | none => rfl
  | some e => exact (unlocked_of_isLiteral opens (Fold.unary_isLiteral hfold)).symm

theorem simplifiedConditional_unlocked {test consequent alternate : Expr} :
    simplifiedConditional (test.unlocked opens) (consequent.unlocked opens) (alternate.unlocked opens)
        type =
      (simplifiedConditional test consequent alternate type).unlocked opens := by
  cases test with
  | bool b => cases b <;> rfl
  | _ => rfl

mutual

theorem simplify_unlocked (e : Expr) : (e.unlocked opens).simplify = e.simplify.unlocked opens := by
  cases e with
  | unary op operand type =>
    rw [unlocked, simplify, simplify, simplify_unlocked operand, simplifiedUnary_unlocked]
  | binary op left right type =>
    rw [unlocked, simplify, simplify, simplify_unlocked left, simplify_unlocked right,
      simplifiedBinary_unlocked]
  | conditional test consequent alternate type =>
    rw [unlocked, simplify, simplify, simplify_unlocked test, simplify_unlocked consequent,
      simplify_unlocked alternate, simplifiedConditional_unlocked]
  | call callee args type =>
    rw [unlocked, simplify, simplify, simplify_unlocked callee, simplifyAll_unlocked args, unlocked]
  | index object i type =>
    rw [unlocked, simplify, simplify, simplify_unlocked object, simplify_unlocked i, unlocked]
  | member object field method type =>
    rw [unlocked, simplify, simplify, simplify_unlocked object, unlocked]
  | array elements type =>
    rw [unlocked, simplify, simplify, simplifyAll_unlocked elements, unlocked]
  | _ => rfl

theorem simplifyAll_unlocked (es : List Expr) :
    simplifyAll (unlockedAll opens es) = unlockedAll opens (simplifyAll es) := by
  cases es with
  | nil => rfl
  | cons e rest =>
    rw [unlockedAll, simplifyAll, simplifyAll, simplify_unlocked e, simplifyAll_unlocked rest,
      unlockedAll]

end

theorem sameEntity_unlocked (x y : Expr) :
    (x.unlocked opens).sameEntity (y.unlocked opens) = x.sameEntity y := by
  cases x with
  | var v =>
    cases y with
    | var w => cases v <;> cases w <;> rfl
    | _ => rfl
  | function f => cases y <;> rfl
  | _ => cases y <;> rfl

end Expr

mutual

/-- A statement without the marks on its variables. -/
def Stmt.unlocked : Stmt → Stmt
  | .missing => .missing
  | .declare v init => .declare (v.map (Variable.unlocked opens)) (init.unlocked opens)
  | .function f params body =>
    .function f (params.map (Option.map (Variable.unlocked opens))) (Stmt.unlockedAll body)
  | .cls c methods => .cls c (MethodBody.unlockedAll methods)
  | .assign target source => .assign (target.unlocked opens) (source.unlocked opens)
  | .bump op target => .bump op (target.unlocked opens)
  | .branch test consequent alternate =>
    .branch (test.unlocked opens) (Stmt.unlockedAll consequent) (Stmt.unlockedAll alternate)
  | .shortBranch test consequent => .shortBranch (test.unlocked opens) (Stmt.unlockedAll consequent)
  | .loop test body => .loop (test.unlocked opens) (Stmt.unlockedAll body)
  | .forEach v collection body =>
    .forEach (v.map (Variable.unlocked opens)) (collection.unlocked opens) (Stmt.unlockedAll body)
  | .leave => .leave
  | .ret value => .ret (value.unlocked opens)
  | .print value => .print (value.unlocked opens)
  | .call callee args type => .call (callee.unlocked opens) (Expr.unlockedAll opens args) type
  | .missingCall => .missingCall

def MethodBody.unlocked : MethodBody → MethodBody
  | .mk m params body =>
    .mk m (params.map (Option.map (Variable.unlocked opens))) (Stmt.unlockedAll body)

def Stmt.unlockedAll : List Stmt → List Stmt
  | [] => []
  | s :: rest => s.unlocked :: Stmt.unlockedAll rest

def MethodBody.unlockedAll : List MethodBody → List MethodBody
  | [] => []
  | m :: rest => m.unlocked :: MethodBody.unlockedAll rest

end

/-- A program without the marks on its variables. -/
def Program.unlocked (program : Program) : Program := Stmt.unlockedAll opens program

theorem params_unlocked_none (params : List (Option Variable)) :
    params.map (Option.map (Variable.unlocked fun _ => false)) = params := by
  rw [funext Variable.unlocked_none, Option.map_id_fun', List.map_id]

mutual

theorem Stmt.unlocked_none (s : Stmt) : s.unlocked (fun _ => false) = s := by
  cases s with
  | missing | leave | missingCall => rfl
  | declare v init =>
    rw [Stmt.unlocked, funext Variable.unlocked_none, Option.map_id', init.unlocked_none]
  | function f params body =>
    rw [Stmt.unlocked, params_unlocked_none, Stmt.unlockedAll_none body]
  | cls c methods => rw [Stmt.unlocked, MethodBody.unlockedAll_none methods]
  | assign target source => rw [Stmt.unlocked, target.unlocked_none, source.unlocked_none]
  | bump op e | ret e | print e => rw [Stmt.unlocked, e.unlocked_none]
  | branch test consequent alternate =>
    rw [Stmt.unlocked, test.unlocked_none, Stmt.unlockedAll_none consequent,
      Stmt.unlockedAll_none alternate]
  | shortBranch test body | loop test body =>
    rw [Stmt.unlocked, test.unlocked_none, Stmt.unlockedAll_none body]
  | forEach v collection body =>
    rw [Stmt.unlocked, funext Variable.unlocked_none, Option.map_id', collection.unlocked_none,
      Stmt.unlockedAll_none body]
  | call callee args type => rw [Stmt.unlocked, callee.unlocked_none, Expr.unlockedAll_none]

theorem MethodBody.unlocked_none (m : MethodBody) : m.unlocked (fun _ => false) = m := by
  obtain ⟨m, params, body⟩ := m
  rw [MethodBody.unlocked, params_unlocked_none, Stmt.unlockedAll_none body]

theorem Stmt.unlockedAll_none (ss : List Stmt) : Stmt.unlockedAll (fun _ => false) ss = ss := by
  cases ss with
  | nil => rfl
  | cons s rest => rw [Stmt.unlockedAll, Stmt.unlocked_none s, Stmt.unlockedAll_none rest]

theorem MethodBody.unlockedAll_none (ms : List MethodBody) :
    MethodBody.unlockedAll (fun _ => false) ms = ms := by
  cases ms with
  | nil => rfl
  | cons m rest =>
    rw [MethodBody.unlockedAll, MethodBody.unlocked_none m, MethodBody.unlockedAll_none rest]

end

theorem Stmt.unlockedAll_append (ss ts : List Stmt) :
    Stmt.unlockedAll opens (ss ++ ts) = Stmt.unlockedAll opens ss ++ Stmt.unlockedAll opens ts := by
  induction ss with
  | nil => rfl
  | cons s rest ih => rw [List.cons_append, unlockedAll, ih, unlockedAll, List.cons_append]

theorem Stmt.length_unlockedAll (ss : List Stmt) : (Stmt.unlockedAll opens ss).length = ss.length := by
  induction ss with
  | nil => rfl
  | cons s rest ih => rw [unlockedAll, List.length_cons, ih, List.length_cons]

mutual

theorem Stmt.simplify_unlocked (s : Stmt) :
    (s.unlocked opens).simplify = Stmt.unlockedAll opens s.simplify := by
  cases s with
  | declare v init =>
    rw [Stmt.unlocked, Stmt.simplify, Stmt.simplify, init.simplify_unlocked]
    rfl
  | function f params body =>
    rw [Stmt.unlocked, Stmt.simplify, Stmt.simplify, Stmt.simplifyAll_unlocked body]
    rfl
  | cls c methods =>
    rw [Stmt.unlocked, Stmt.simplify, Stmt.simplify, MethodBody.simplifyAll_unlocked methods]
    rfl
  | assign target source =>
    rw [Stmt.unlocked, Stmt.simplify, Stmt.simplify, target.simplify_unlocked, source.simplify_unlocked,
      Expr.sameEntity_unlocked]
    split <;> rfl
  | bump op e | ret e | print e =>
    rw [Stmt.unlocked, Stmt.simplify, Stmt.simplify, e.simplify_unlocked]
    rfl
  | branch test consequent alternate =>
    simp only [Stmt.unlocked, Stmt.simplify, test.simplify_unlocked,
      Stmt.simplifyAll_unlocked consequent, Stmt.simplifyAll_unlocked alternate]
    cases test.simplify with
    | bool b => cases b <;> rfl
    | _ => rfl
  | shortBranch test body | loop test body =>
    simp only [Stmt.unlocked, Stmt.simplify, test.simplify_unlocked, Stmt.simplifyAll_unlocked body]
    cases test.simplify with
    | bool b => cases b <;> rfl
    | _ => rfl
  | forEach v collection body =>
    simp only [Stmt.unlocked, Stmt.simplify, collection.simplify_unlocked,
      Stmt.simplifyAll_unlocked body]
    cases collection.simplify <;> rfl
  | call callee args type =>
    rw [Stmt.unlocked, Stmt.simplify, Stmt.simplify, callee.simplify_unlocked,
      Expr.simplifyAll_unlocked opens args]
    rfl
  | missing | leave | missingCall => rfl

theorem MethodBody.simplify_unlocked (m : MethodBody) :
    (m.unlocked opens).simplify = m.simplify.unlocked opens := by
  obtain ⟨m, params, body⟩ := m
  rw [MethodBody.unlocked, MethodBody.simplify, MethodBody.simplify, Stmt.simplifyAll_unlocked body,
    MethodBody.unlocked]

theorem Stmt.simplifyAll_unlocked (ss : List Stmt) :
    Stmt.simplifyAll (Stmt.unlockedAll opens ss) = Stmt.unlockedAll opens (Stmt.simplifyAll ss) := by
  cases ss with
  | nil => rfl
  | cons s rest =>
    rw [Stmt.unlockedAll, Stmt.simplifyAll, Stmt.simplifyAll, Stmt.simplify_unlocked s,
      Stmt.simplifyAll_unlocked rest, Stmt.unlockedAll_append]

theorem MethodBody.simplifyAll_unlocked (ms : List MethodBody) :
    MethodBody.simplifyAll (MethodBody.unlockedAll opens ms) =
      MethodBody.unlockedAll opens (MethodBody.simplifyAll ms) := by
  cases ms with
  | nil => rfl
  | cons m rest =>
    rw [MethodBody.unlockedAll, MethodBody.simplifyAll, MethodBody.simplifyAll,
      MethodBody.simplify_unlocked m, MethodBody.simplifyAll_unlocked rest, MethodBody.unlockedAll]

end

theorem Program.simplify_unlocked (program : Program) :
    (program.unlocked opens).simplify = program.simplify.unlocked opens :=
  Stmt.simplifyAll_unlocked opens program

end PeakLang.Typed
