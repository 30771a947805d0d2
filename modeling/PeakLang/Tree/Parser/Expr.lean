import PeakLang.Token.StringLiteral
import PeakLang.Tree.Parser.Type

namespace PeakLang.Tree.Parser

/-- The operators between operands that may continue an expression at a level. -/
def operatorFrom? (level : Nat) (k : TokenKind) : Option BinaryOp :=
  match BinaryOp.ofToken? k with
  | some .pow => none
  | some op => if level ≤ op.level then some op else none
  | none => none

/-- `[T]()`, or nothing if the tokens ahead are anything else. -/
def emptyArray? : Parse (Option Expr) := do
  let pos := (← current).pos
  speculate do
    let t ← type
    if ← accept .lparen then
      if ← accept .rparen then return some (.emptyArray t pos)
    return none

section Rules

variable (expression factor access primary : Parse Expr) (expressions : Parse (List Expr))
  (operation : Nat → Parse Expr) (operations : Nat → Bool → Expr → Parse Expr)
  (accesses : Expr → Parse Expr)

def expressionRule : Parse Expr := do
  let test ← operation 1
  if ← accept .question then
    let consequent ← expression
    let colon ← expect .colon
    let alternate ← expression
    return .conditional test consequent alternate colon.pos
  else return test

/-- Operands with operators of at least a level between them. From loosest to tightest these are `or`,
`and`, comparisons, `+ -` and `* / %`. -/
def operationRule (level : Nat) : Parse Expr := do
  let left ← factor
  operations level false left

/-- The operators and operands that follow an operand. A second comparison in a row is a fault. -/
def operationsRule (level : Nat) (compared : Bool) (left : Expr) : Parse Expr := do
  let token ← current
  match operatorFrom? level token.kind with
  | none => return left
  | some op =>
    let _ ← advance
    if op.isComparison && compared then fault .chainedComparison token.pos
    let right ← operation (op.level + 1)
    operations level (compared || op.isComparison) (.binary op left right token.pos)

/-- A power, which takes everything up to the end of its right operand as that operand, or an operand
with operators before it. -/
def factorRule : Parse Expr := do
  let token ← current
  match UnaryOp.ofToken? token.kind with
  | some op =>
    let _ ← advance
    return .unary op (← factor) token.pos
  | none =>
    let left ← access
    let token ← current
    if token.kind == .power then
      let _ ← advance
      return .binary .pow left (← factor) token.pos
    else return left

/-- An operand with the members, indexes and calls after it. -/
def accessRule : Parse Expr := do
  let object ← primary
  accesses object

/-- The members, indexes and calls after an operand. -/
def accessesRule (object : Expr) : Parse Expr := do
  let token ← current
  match token.kind with
  | .lbracket =>
    let _ ← advance
    let index ← expression
    let _ ← expect .rbracket
    accesses (.index object index token.pos)
  | .dot =>
    let _ ← advance
    let name ← expect .ident
    accesses (.member object name.literal name.pos)
  | .lparen =>
    let _ ← advance
    let args ← if ← at? .rparen then pure [] else expressions
    let _ ← expect .rparen
    accesses (.call object args token.pos)
  | _ => return object

/-- An operand. A token that starts none is taken all the same. -/
def primaryRule : Parse Expr := do
  let token ← current
  match token.kind with
  | .intLit =>
    let _ ← advance
    return .int token.literal token.pos
  | .floatLit =>
    let _ ← advance
    return .float token.literal token.pos
  | .stringLit =>
    let _ ← advance
    return .string (StringLiteral.decode token.literal) token.pos
  | .kwTrue =>
    let _ ← advance
    return .bool true token.pos
  | .kwFalse =>
    let _ ← advance
    return .bool false token.pos
  | .kwShot =>
    let _ ← advance
    return .shot token.pos
  | .ident =>
    let _ ← advance
    return .name token.literal token.pos
  | .lparen =>
    let _ ← advance
    let inner ← expression
    let _ ← expect .rparen
    return inner
  | .lbracket =>
    match ← emptyArray? with
    | some empty => return empty
    | none =>
      let _ ← advance
      let elements ← if ← at? .rbracket then pure [] else expressions
      let _ ← expect .rbracket
      return .array elements token.pos
  | _ =>
    unexpected token .expression
    let _ ← advance
    return .name errorName token.pos

end Rules

mutual

/-- An expression. The fuel bounds the depth of calls. -/
def expressionWith : (fuel : Nat) → Parse Expr
  | 0 => exhausted (.name errorName)
  | fuel + 1 => expressionRule (expressionWith fuel) (operationWith fuel)

def operationWith : (fuel level : Nat) → Parse Expr
  | 0 => fun _ => exhausted (.name errorName)
  | fuel + 1 => operationRule (factorWith fuel) (operationsWith fuel)

def operationsWith : (fuel level : Nat) → (compared : Bool) → Expr → Parse Expr
  | 0 => fun _ _ left => exhausted fun _ => left
  | fuel + 1 => operationsRule (operationWith fuel) (operationsWith fuel)

def factorWith : (fuel : Nat) → Parse Expr
  | 0 => exhausted (.name errorName)
  | fuel + 1 => factorRule (factorWith fuel) (accessWith fuel)

def accessWith : (fuel : Nat) → Parse Expr
  | 0 => exhausted (.name errorName)
  | fuel + 1 => accessRule (primaryWith fuel) (accessesWith fuel)

def accessesWith : (fuel : Nat) → Expr → Parse Expr
  | 0 => fun object => exhausted fun _ => object
  | fuel + 1 => accessesRule (expressionWith fuel) (expressionsWith fuel) (accessesWith fuel)

def primaryWith : (fuel : Nat) → Parse Expr
  | 0 => exhausted (.name errorName)
  | fuel + 1 => primaryRule (expressionWith fuel) (expressionsWith fuel)

def expressionsWith : (fuel : Nat) → Parse (List Expr)
  | 0 => exhausted fun _ => []
  | fuel + 1 => separated (expressionWith fuel) (expressionsWith fuel)

end

/-- Fuel for the tokens ahead: a nested expression is read after a further token, at most six calls
deeper. -/
def expressionFuel (s : State) : Nat := 8 * s.ahead.length + 8

def expression : Parse Expr := do expressionWith (expressionFuel (← get))

/-- An operand with the members, indexes and calls after it. -/
def access : Parse Expr := do accessWith (expressionFuel (← get))

end PeakLang.Tree.Parser
