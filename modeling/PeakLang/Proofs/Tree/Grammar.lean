import PeakLang.Token.StringLiteral
import PeakLang.Tree

namespace PeakLang

/-- The operators of the third level are the comparisons. -/
theorem BinaryOp.isComparison_iff {op : BinaryOp} : op.isComparison = true ↔ op.level = 3 := by
  cases op <;> decide

/-- The operators that stand between the parts of each level. -/
def BinaryOp.ofLevel : Nat → List BinaryOp
  | 1 => [or]
  | 2 => [and]
  | 3 => [lt, leq, eq, neq, geq, gt]
  | 4 => [add, sub]
  | 5 => [mul, div, rem]
  | 6 => [pow]
  | _ => []

theorem BinaryOp.mem_ofLevel_iff {op : BinaryOp} {n : Nat} : op ∈ ofLevel n ↔ op.level = n := by
  constructor
  · intro hmem
    unfold ofLevel at hmem
    split at hmem <;> cases op <;> first | rfl | simp at hmem
  · rintro rfl
    cases op <;> decide

theorem UnaryOp.eq_token {k : TokenKind} {op : UnaryOp} (h : ofToken? k = some op) :
    k = op.token := by
  cases k <;> first | (cases h; rfl) | cases h

theorem BumpOp.eq_token {k : TokenKind} {op : BumpOp} (h : ofToken? k = some op) :
    k = op.token := by
  cases k <;> first | (cases h; rfl) | cases h

namespace Tree

/-- `(P ("," P)*)?`: things with commas between them, or nothing. -/
inductive Separated {α : Type} (P : List Token → α → Prop) : List Token → List α → Prop where
  | none : Separated P [] []
  | one {ws : List Token} {x : α} : P ws x → Separated P ws [x]
  | more {ws ws' : List Token} {x : α} {rest : List α} {comma : Token} :
    P ws x → comma.kind = .comma → rest ≠ [] → Separated P ws' rest →
    Separated P (ws ++ [comma] ++ ws') (x :: rest)

/-- `P*`: things in a row. -/
inductive Repeated {α : Type} (P : List Token → α → Prop) : List Token → List α → Prop where
  | none : Repeated P [] []
  | more {ws ws' : List Token} {x : α} {rest : List α} :
    P ws x → Repeated P ws' rest → Repeated P (ws ++ ws') (x :: rest)

namespace Repeated

variable {α : Type} {P : List Token → α → Prop}

theorem snoc {ws ws' : List Token} {xs : List α} {x : α} (hxs : Repeated P ws xs) (hx : P ws' x) :
    Repeated P (ws ++ ws') (xs ++ [x]) := by
  induction hxs with
  | none =>
    have hone : Repeated P (ws' ++ []) [x] := .more hx .none
    rwa [List.append_nil] at hone
  | more hfirst _ ih =>
    rw [List.append_assoc]
    exact .more hfirst ih

theorem eq_nil {ws : List Token} (h : Repeated P ws []) : ws = [] := by
  cases h
  rfl

end Repeated

end Tree

/-- `Type = Type "?" | "[" Type "]" | "(" (Type ("," Type)*)? ")" "->" Type | id`. -/
inductive TypeExpr.Derived : List Token → TypeExpr → Prop where
  | named {name : Token} : name.kind = .ident → Derived [name] (.named name.literal name.pos)
  | array {opening closing : Token} {ws : List Token} {base : TypeExpr} :
    opening.kind = .lbracket → Derived ws base → closing.kind = .rbracket →
    Derived ([opening] ++ ws ++ [closing]) (.array base opening.pos)
  | optional {mark : Token} {ws : List Token} {base : TypeExpr} :
    Derived ws base → mark.kind = .question → Derived (ws ++ [mark]) (.optional base mark.pos)
  | function {opening closing arrow : Token} {ws ws' : List Token} {params : List TypeExpr}
      {result : TypeExpr} :
    opening.kind = .lparen → Tree.Separated Derived ws params → closing.kind = .rparen →
    arrow.kind = .arrow → Derived ws' result →
    Derived ([opening] ++ ws ++ [closing] ++ [arrow] ++ ws') (.function params result opening.pos)

theorem TypeExpr.Derived.ne_nil {ws : List Token} {t : TypeExpr} (h : t.Derived ws) : ws ≠ [] := by
  cases h <;> simp

namespace Tree

/-- The expressions of each level. A level includes the tighter ones.
* 0: `Exp = Exp0 ("?" Exp ":" Exp)?`
* 1: `Exp0 = Exp1 ("or" Exp1)*`
* 2: `Exp1 = Exp2 ("and" Exp2)*`
* 3: `Exp2 = Exp3 (relop Exp3)?`
* 4: `Exp3 = Term (("+" | "-") Term)*`
* 5: `Term = Factor (("*" | "/" | "%") Factor)*`
* 6: `Factor = Postfix "**" Factor | ("-" | "not") Factor | Postfix`
* 7: `Postfix = Primary ("(" args ")" | "[" Exp "]" | "." id)*`
* 8: `Primary = literal | id | "shot" | "(" Exp ")" | Type "(" ")" | "[" (Exp ("," Exp)*)? "]"` -/
inductive Expr.Derived : Nat → List Token → Expr → Prop where
  | tighter {n : Nat} {ws : List Token} {e : Expr} : Derived (n + 1) ws e → Derived n ws e
  | conditional {question colon : Token} {ws ws' ws'' : List Token}
      {test consequent alternate : Expr} :
    Derived 1 ws test → question.kind = .question → Derived 0 ws' consequent →
    colon.kind = .colon → Derived 0 ws'' alternate →
    Derived 0 (ws ++ [question] ++ ws' ++ [colon] ++ ws'')
      (.conditional test consequent alternate colon.pos)
  -- Operators of one level associate to the left, ...
  | operation {n : Nat} {op : BinaryOp} {sign : Token} {ws ws' : List Token} {left right : Expr} :
    n ∈ [1, 2, 4, 5] → op ∈ BinaryOp.ofLevel n → Derived n ws left → sign.kind = op.token →
    Derived (n + 1) ws' right → Derived n (ws ++ [sign] ++ ws') (.binary op left right sign.pos)
  -- ... but comparisons do not associate ...
  | comparison {op : BinaryOp} {sign : Token} {ws ws' : List Token} {left right : Expr} :
    op ∈ BinaryOp.ofLevel 3 → Derived 4 ws left → sign.kind = op.token → Derived 4 ws' right →
    Derived 3 (ws ++ [sign] ++ ws') (.binary op left right sign.pos)
  -- ... and powers associate to the right.
  | power {sign : Token} {ws ws' : List Token} {left right : Expr} :
    Derived 7 ws left → sign.kind = .power → Derived 6 ws' right →
    Derived 6 (ws ++ [sign] ++ ws') (.binary .pow left right sign.pos)
  | unary {op : UnaryOp} {sign : Token} {ws : List Token} {operand : Expr} :
    sign.kind = op.token → Derived 6 ws operand →
    Derived 6 ([sign] ++ ws) (.unary op operand sign.pos)
  | call {opening closing : Token} {ws ws' : List Token} {callee : Expr} {args : List Expr} :
    Derived 7 ws callee → opening.kind = .lparen → Separated (Derived 0) ws' args →
    closing.kind = .rparen →
    Derived 7 (ws ++ [opening] ++ ws' ++ [closing]) (.call callee args opening.pos)
  | index {opening closing : Token} {ws ws' : List Token} {object index : Expr} :
    Derived 7 ws object → opening.kind = .lbracket → Derived 0 ws' index →
    closing.kind = .rbracket →
    Derived 7 (ws ++ [opening] ++ ws' ++ [closing]) (.index object index opening.pos)
  | member {dot name : Token} {ws : List Token} {object : Expr} :
    Derived 7 ws object → dot.kind = .dot → name.kind = .ident →
    Derived 7 (ws ++ [dot] ++ [name]) (.member object name.literal name.pos)
  | int {t : Token} : t.kind = .intLit → Derived 8 [t] (.int t.literal t.pos)
  | float {t : Token} : t.kind = .floatLit → Derived 8 [t] (.float t.literal t.pos)
  | string {t : Token} :
    t.kind = .stringLit → Derived 8 [t] (.string (StringLiteral.decode t.literal) t.pos)
  | yes {t : Token} : t.kind = .kwTrue → Derived 8 [t] (.bool true t.pos)
  | no {t : Token} : t.kind = .kwFalse → Derived 8 [t] (.bool false t.pos)
  | name {t : Token} : t.kind = .ident → Derived 8 [t] (.name t.literal t.pos)
  | shot {t : Token} : t.kind = .kwShot → Derived 8 [t] (.shot t.pos)
  | parenthesized {opening closing : Token} {ws : List Token} {e : Expr} :
    opening.kind = .lparen → Derived 0 ws e → closing.kind = .rparen →
    Derived 8 ([opening] ++ ws ++ [closing]) e
  | emptyArray {bracket opening closing : Token} {ws : List Token} {type : TypeExpr} :
    bracket.kind = .lbracket → TypeExpr.Derived ([bracket] ++ ws) type → opening.kind = .lparen →
    closing.kind = .rparen →
    Derived 8 ([bracket] ++ ws ++ [opening] ++ [closing]) (.emptyArray type bracket.pos)
  | array {opening closing : Token} {ws : List Token} {elements : List Expr} :
    opening.kind = .lbracket → Separated (Derived 0) ws elements → closing.kind = .rbracket →
    Derived 8 ([opening] ++ ws ++ [closing]) (.array elements opening.pos)

theorem Expr.Derived.ne_nil {ws : List Token} {n : Nat} {e : Expr} (h : e.Derived n ws) :
    ws ≠ [] := by
  apply @Expr.Derived.rec (fun _ ws _ _ => ws ≠ []) (fun _ _ _ => True) (t := h)
  case tighter => exact fun _ ih => ih
  all_goals simp

/-- An expression of a tight level is one of every looser level. -/
theorem Expr.Derived.loosen {e : Expr} {ws : List Token} {m n : Nat} (h : e.Derived m ws)
    (hle : n ≤ m) : e.Derived n ws := by
  induction hle with
  | refl => exact h
  | step _ ih => exact ih h.tighter

/-- `id ":" Type`: what is made of a name, its type and its position. -/
inductive TypedName {α : Type} (make : Text → TypeExpr → Pos → α) : List Token → α → Prop where
  | mk {name colon : Token} {ws : List Token} {type : TypeExpr} :
    name.kind = .ident → colon.kind = .colon → type.Derived ws →
    TypedName make ([name] ++ [colon] ++ ws) (make name.literal type name.pos)

/-- `Param = id ":" Type`. -/
abbrev Param.Derived : List Token → Param → Prop := TypedName Param.mk

/-- `Field = id ":" Type`. -/
abbrev Field.Derived : List Token → Field → Prop := TypedName Field.mk

/-- `("->" Type)?`: the result type of a function. -/
inductive ResultDerived : List Token → Option TypeExpr → Prop where
  | none : ResultDerived [] none
  | some {arrow : Token} {ws : List Token} {type : TypeExpr} :
    arrow.kind = .arrow → type.Derived ws → ResultDerived ([arrow] ++ ws) (some type)

/-- Whether the first of some tokens has a position. -/
def StartAt (ws : List Token) (pos : Pos) : Prop := ws.head?.map Token.pos = some pos

mutual

/-- Statements. The target of an assignment or a step, and what a call statement calls, are operands
with the members, indexes and calls after them. -/
inductive Stmt.Derived : List Token → Stmt → Prop where
  | declare {keyword name sign : Token} {readOnly : Bool} {ws : List Token} {value : Expr} :
    keyword.kind = (if readOnly then .kwConst else .kwLet) → name.kind = .ident →
    sign.kind = .assign → value.Derived 0 ws →
    Stmt.Derived ([keyword] ++ [name] ++ [sign] ++ ws) (.declare name.literal readOnly value name.pos)
  | function {ws : List Token} {f : Func} : f.Derived ws → Stmt.Derived ws (.function f)
  | cls {keyword name opening closing : Token} {ws ws' : List Token} {fields : List Field}
      {methods : List Func} :
    keyword.kind = .kwOrder → name.kind = .ident → opening.kind = .lbrace →
    Repeated Field.Derived ws fields → Repeated Func.Derived ws' methods →
    closing.kind = .rbrace →
    Stmt.Derived ([keyword] ++ [name] ++ [opening] ++ (ws ++ ws') ++ [closing])
      (.cls name.literal fields methods name.pos)
  | branch {ws : List Token} {b : Branch} : b.Derived ws → Stmt.Derived ws (.branch b)
  | loop {keyword : Token} {ws ws' : List Token} {test : Expr} {body : List Stmt} {bodyPos : Pos} :
    keyword.kind = .kwBlend → test.Derived 0 ws → BlockDerived ws' (body, bodyPos) →
    Stmt.Derived ([keyword] ++ ws ++ ws') (.loop test body bodyPos keyword.pos)
  | forEach {keyword name sign : Token} {ws ws' : List Token} {collection : Expr}
      {body : List Stmt} {bodyPos : Pos} :
    keyword.kind = .kwRistretto → name.kind = .ident → sign.kind = .kwEspresso →
    collection.Derived 0 ws → BlockDerived ws' (body, bodyPos) →
    Stmt.Derived ([keyword] ++ [name] ++ [sign] ++ ws ++ ws')
      (.forEach name.literal name.pos collection body bodyPos keyword.pos)
  | leave {keyword : Token} : keyword.kind = .kwTamp → Stmt.Derived [keyword] (.leave keyword.pos)
  | ret {keyword : Token} : keyword.kind = .kwServe → Stmt.Derived [keyword] (.ret none keyword.pos)
  | retValue {keyword : Token} {ws : List Token} {value : Expr} :
    keyword.kind = .kwServe → value.Derived 0 ws →
    Stmt.Derived ([keyword] ++ ws) (.ret (some value) keyword.pos)
  | print {keyword : Token} {ws : List Token} {value : Expr} :
    keyword.kind = .kwRemake → value.Derived 0 ws →
    Stmt.Derived ([keyword] ++ ws) (.print value keyword.pos)
  | bump {op : BumpOp} {sign : Token} {ws : List Token} {target : Expr} {pos : Pos} :
    target.Derived 7 ws → sign.kind = op.token → StartAt ws pos →
    Stmt.Derived (ws ++ [sign]) (.bump op target pos)
  | assign {sign : Token} {ws ws' : List Token} {target value : Expr} {pos : Pos} :
    target.Derived 7 ws → sign.kind = .assign → value.Derived 0 ws' → StartAt ws pos →
    Stmt.Derived (ws ++ [sign] ++ ws') (.assign target value pos)
  | call {ws : List Token} {callee : Expr} {args : List Expr} {callPos pos : Pos} :
    (Expr.call callee args callPos).Derived 7 ws → StartAt ws pos →
    Stmt.Derived ws (.call callee args callPos pos)

/-- `FuncDecl = "item" id "(" (Param ("," Param)*)? ")" ("->" Type)? Block`. -/
inductive Func.Derived : List Token → Func → Prop where
  | mk {keyword name opening closing : Token} {ws ws' ws'' : List Token} {params : List Param}
      {result : Option TypeExpr} {body : List Stmt} {bodyPos : Pos} :
    keyword.kind = .kwItem → name.kind = .ident → opening.kind = .lparen →
    Separated Param.Derived ws params → closing.kind = .rparen → ResultDerived ws' result →
    BlockDerived ws'' (body, bodyPos) →
    Func.Derived ([keyword] ++ [name] ++ [opening] ++ ws ++ [closing] ++ ws' ++ ws'')
      (.mk name.literal params result body bodyPos name.pos)

/-- `IfStmt = "brew" Exp Block ("pull" (Block | IfStmt))?`. -/
inductive Branch.Derived : List Token → Branch → Prop where
  | mk {keyword : Token} {ws ws' ws'' : List Token} {test : Expr} {body : List Stmt}
      {bodyPos : Pos} {otherwise : Otherwise} :
    keyword.kind = .kwBrew → test.Derived 0 ws → BlockDerived ws' (body, bodyPos) →
    otherwise.Derived ws'' →
    Branch.Derived ([keyword] ++ ws ++ ws' ++ ws'') (.mk test body bodyPos otherwise keyword.pos)

/-- `("pull" (Block | IfStmt))?`. -/
inductive Otherwise.Derived : List Token → Otherwise → Prop where
  | nothing : Otherwise.Derived [] .nothing
  | block {keyword : Token} {ws : List Token} {body : List Stmt} {bodyPos : Pos} :
    keyword.kind = .kwPull → BlockDerived ws (body, bodyPos) →
    Otherwise.Derived ([keyword] ++ ws) (.block body bodyPos)
  | chain {keyword : Token} {ws : List Token} {next : Branch} :
    keyword.kind = .kwPull → next.Derived ws → Otherwise.Derived ([keyword] ++ ws) (.chain next)

/-- `Block = "{" Statement* "}"`, with the position of the opening brace. -/
inductive BlockDerived : List Token → List Stmt × Pos → Prop where
  | mk {opening closing : Token} {ws : List Token} {body : List Stmt} :
    opening.kind = .lbrace → Repeated Stmt.Derived ws body → closing.kind = .rbrace →
    BlockDerived ([opening] ++ ws ++ [closing]) (body, opening.pos)

end

theorem Stmt.Derived.ne_nil {ws : List Token} {r : Stmt} (h : r.Derived ws) : ws ≠ [] := by
  cases h with
  | function h | branch h =>
    cases h
    simp
  | call _ hstart => exact fun hnil => nomatch hnil ▸ hstart
  | _ => simp

/-- `Program = Statement*`. -/
def Program.Derived (words : List Token) (program : Program) : Prop :=
  Repeated Stmt.Derived words program

end Tree

end PeakLang
