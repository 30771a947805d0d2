import PeakLang.Tree
import PeakLang.Tree.Parser.State

namespace PeakLang.Tree.Parser

/-- Wraps a type into one optional type for each `?` at hand. -/
def optionals (type : TypeExpr) : Parse TypeExpr := do
  let marks := (← get).ahead.takeWhile fun t => t.kind == .question
  modify fun s => { s with ahead := s.ahead.drop marks.length }
  return marks.foldl (fun t mark => .optional t mark.pos) type

/-- One or more of something with commas between them: the first one, and the rest after a comma. -/
def separated {α : Type} (item : Parse α) (more : Parse (List α)) : Parse (List α) := do
  let first ← item
  if ← accept .comma then return first :: (← more)
  else return [first]

/-- A type, given parsers of the types in it. -/
def typeRule (type : Parse TypeExpr) (types : Parse (List TypeExpr)) : Parse TypeExpr := do
  let token ← current
  match token.kind with
  | .ident =>
    let _ ← advance
    optionals (.named token.literal token.pos)
  | .lbracket =>
    let _ ← advance
    let base ← type
    let _ ← expect .rbracket
    optionals (.array base token.pos)
  | .lparen =>
    let _ ← advance
    let params ← if ← at? .rparen then pure [] else types
    let _ ← expect .rparen
    let _ ← expect .arrow
    let result ← type
    optionals (.function params result token.pos)
  | _ =>
    unexpected token .type
    return .named errorName token.pos

mutual

/-- A type. The fuel bounds the nesting. -/
def typeWith : (fuel : Nat) → Parse TypeExpr
  | 0 => exhausted (.named errorName)
  | fuel + 1 => typeRule (typeWith fuel) (typesWith fuel)

def typesWith : (fuel : Nat) → Parse (List TypeExpr)
  | 0 => exhausted fun _ => []
  | fuel + 1 => separated (typeWith fuel) (typesWith fuel)

end

/-- A type. Each nested type is read after a further token, at most two calls deeper. -/
def type : Parse TypeExpr := do
  typeWith (2 * (← get).ahead.length + 2)

end PeakLang.Tree.Parser
