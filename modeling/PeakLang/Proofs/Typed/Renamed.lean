import PeakLang.Proofs.Renaming
import PeakLang.Typed

namespace PeakLang.Typed

variable (r : Renaming)

namespace Expr

mutual

/-- An expression with its entities and types renamed. -/
def renamed : Expr → Expr
  | missing => .missing
  | int value => .int value
  | float value => .float value
  | string value => .string value
  | bool value => .bool value
  | var v => .var (v.map (Variable.renamed r))
  | function f => .function (f.map (Function.renamed r))
  | cls c type => .cls (c.map (ClassRef.renamed r)) (type.renamed r)
  | self c => .self (c.map (ClassRef.renamed r))
  | unary op operand type => .unary op operand.renamed (type.renamed r)
  | binary op left right type => .binary op left.renamed right.renamed (type.renamed r)
  | conditional test consequent alternate type =>
    .conditional test.renamed consequent.renamed alternate.renamed (type.renamed r)
  | call callee args type => .call callee.renamed (renamedAll args) (type.renamed r)
  | index object i type => .index object.renamed i.renamed (type.renamed r)
  | member object field method type =>
    .member object.renamed (field.map (Field.renamed r)) (method.map (Method.renamed r))
      (type.renamed r)
  | array elements type => .array (renamedAll elements) (type.renamed r)
  | emptyArray type => .emptyArray (type.renamed r)

def renamedAll : List Expr → List Expr
  | [] => []
  | e :: rest => e.renamed :: renamedAll rest

end

mutual

theorem renamed_none (e : Expr) : e.renamed .none = e := by
  cases e with
  | missing | int | float | string | bool => rfl
  | var v => rw [renamed, funext Variable.renamed_none, Option.map_id']
  | function f => rw [renamed, funext Function.renamed_none, Option.map_id']
  | cls c type => cases c <;> rw [renamed, type.renamed_none] <;> rfl
  | self c => cases c <;> rfl
  | unary op operand type => rw [renamed, renamed_none operand, type.renamed_none]
  | binary op left right type =>
    rw [renamed, renamed_none left, renamed_none right, type.renamed_none]
  | conditional test consequent alternate type =>
    rw [renamed, renamed_none test, renamed_none consequent, renamed_none alternate, type.renamed_none]
  | call callee args type => rw [renamed, renamed_none callee, renamedAll_none args, type.renamed_none]
  | index object i type => rw [renamed, renamed_none object, renamed_none i, type.renamed_none]
  | member object field method type =>
    rw [renamed, renamed_none object, funext Field.renamed_none, funext Method.renamed_none,
      Option.map_id', Option.map_id', type.renamed_none]
  | array elements type => rw [renamed, renamedAll_none elements, type.renamed_none]
  | emptyArray type => rw [renamed, type.renamed_none]

theorem renamedAll_none (es : List Expr) : renamedAll .none es = es := by
  cases es with
  | nil => rfl
  | cons e rest => rw [renamedAll, renamed_none e, renamedAll_none rest]

end

theorem type_renamed (e : Expr) : (e.renamed r).type = e.type.renamed r := by
  cases e with
  | var v => cases v <;> rfl
  | function f =>
    cases f with
    | none => rfl
    | some f => exact f.type_renamed r
  | self c => cases c <;> rfl
  | _ => rfl

end Expr

mutual

/-- A statement with its entities and types renamed. -/
def Stmt.renamed : Stmt → Stmt
  | .missing => .missing
  | .declare v init => .declare (v.map (Variable.renamed r)) (init.renamed r)
  | .function f params body =>
    .function (f.map (Function.renamed r)) (params.map (Option.map (Variable.renamed r)))
      (Stmt.renamedAll body)
  | .cls c methods => .cls (c.map (Class.renamed r)) (MethodBody.renamedAll methods)
  | .assign target source => .assign (target.renamed r) (source.renamed r)
  | .bump op target => .bump op (target.renamed r)
  | .branch test consequent alternate =>
    .branch (test.renamed r) (Stmt.renamedAll consequent) (Stmt.renamedAll alternate)
  | .shortBranch test consequent => .shortBranch (test.renamed r) (Stmt.renamedAll consequent)
  | .loop test body => .loop (test.renamed r) (Stmt.renamedAll body)
  | .forEach v collection body =>
    .forEach (v.map (Variable.renamed r)) (collection.renamed r) (Stmt.renamedAll body)
  | .leave => .leave
  | .ret value => .ret (value.renamed r)
  | .print value => .print (value.renamed r)
  | .call callee args type => .call (callee.renamed r) (Expr.renamedAll r args) (type.renamed r)
  | .missingCall => .missingCall

def MethodBody.renamed : MethodBody → MethodBody
  | .mk m params body =>
    .mk (m.map (Method.renamed r)) (params.map (Option.map (Variable.renamed r)))
      (Stmt.renamedAll body)

def Stmt.renamedAll : List Stmt → List Stmt
  | [] => []
  | s :: rest => s.renamed :: Stmt.renamedAll rest

def MethodBody.renamedAll : List MethodBody → List MethodBody
  | [] => []
  | m :: rest => m.renamed :: MethodBody.renamedAll rest

end

theorem params_renamed_none (params : List (Option Variable)) :
    params.map (Option.map (Variable.renamed .none)) = params := by
  rw [funext Variable.renamed_none, Option.map_id_fun', List.map_id]

mutual

theorem Stmt.renamed_none (s : Stmt) : s.renamed .none = s := by
  cases s with
  | missing | leave | missingCall => rfl
  | declare v init => rw [Stmt.renamed, funext Variable.renamed_none, Option.map_id', init.renamed_none]
  | function f params body =>
    rw [Stmt.renamed, funext Function.renamed_none, Option.map_id', params_renamed_none,
      Stmt.renamedAll_none body]
  | cls c methods =>
    rw [Stmt.renamed, funext Class.renamed_none, Option.map_id', MethodBody.renamedAll_none methods]
  | assign target source => rw [Stmt.renamed, target.renamed_none, source.renamed_none]
  | bump op target => rw [Stmt.renamed, target.renamed_none]
  | branch test consequent alternate =>
    rw [Stmt.renamed, test.renamed_none, Stmt.renamedAll_none consequent, Stmt.renamedAll_none alternate]
  | shortBranch test body | loop test body => rw [Stmt.renamed, test.renamed_none, Stmt.renamedAll_none body]
  | forEach v collection body =>
    rw [Stmt.renamed, funext Variable.renamed_none, Option.map_id', collection.renamed_none,
      Stmt.renamedAll_none body]
  | ret value | print value => rw [Stmt.renamed, value.renamed_none]
  | call callee args type =>
    rw [Stmt.renamed, callee.renamed_none, Expr.renamedAll_none, type.renamed_none]

theorem MethodBody.renamed_none (m : MethodBody) : m.renamed .none = m := by
  obtain ⟨m, params, body⟩ := m
  rw [MethodBody.renamed, funext Method.renamed_none, Option.map_id', params_renamed_none,
    Stmt.renamedAll_none body]

theorem Stmt.renamedAll_none (ss : List Stmt) : Stmt.renamedAll .none ss = ss := by
  cases ss with
  | nil => rfl
  | cons s rest => rw [Stmt.renamedAll, Stmt.renamed_none s, Stmt.renamedAll_none rest]

theorem MethodBody.renamedAll_none (ms : List MethodBody) : MethodBody.renamedAll .none ms = ms := by
  cases ms with
  | nil => rfl
  | cons m rest => rw [MethodBody.renamedAll, MethodBody.renamed_none m, MethodBody.renamedAll_none rest]

end

/-- A program with its entities and types renamed. -/
def Program.renamed (program : Program) : Program := Stmt.renamedAll r program

end PeakLang.Typed
