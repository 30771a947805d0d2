import PeakLang.Number.Nearest
import PeakLang.Number.Word
import PeakLang.Typed

namespace PeakLang.Typed.Fold

/-- Which operand comes first, or neither. A NaN comes neither before nor after any number. -/
def order {α : Type} (less : α → α → Bool) (a b : α) : Ordering :=
  if less a b then .lt else if less b a then .gt else .eq

/-- The outcome of a comparison, if an operator is one. -/
def comparison (op : TokenKind) (o : Ordering) : Option Expr :=
  match op with
  | .eq => some (.bool (o == .eq))
  | .neq => some (.bool (o != .eq))
  | .lt => some (.bool (o == .lt))
  | .leq => some (.bool (o != .gt))
  | .gt => some (.bool (o == .gt))
  | .geq => some (.bool (o != .lt))
  | _ => none

/-- An operation on integers, if its result fits. -/
def ints (op : TokenKind) (a b : Int64) : Option Expr :=
  match op with
  | .plus => (Word.add? a b).map .int
  | .minus => (Word.sub? a b).map .int
  | .star => (Word.mul? a b).map .int
  | .slash => (Word.div? a b).map .int
  | .percent => (Word.rem? a b).map .int
  | .power => (Word.pow? a b).map .int
  | _ => comparison op (order (fun a b : Int64 => a < b) a b)

/-- A number, if it is finite: the others cannot be written. -/
def finite (x : Binary64) : Option Expr := if x.isFinite then some (.float x) else none

/-- An operation on floating-point numbers, if its result is finite. -/
def floats (op : TokenKind) (a b : Binary64) : Option Expr :=
  match op with
  | .plus => finite (a.add b)
  | .minus => finite (a.sub b)
  | .star => finite (a.mul b)
  | .slash => finite (a.div b)
  | .percent => finite (a.rem b)
  | .power => finite (a.pow b)
  | _ => comparison op (order Binary64.less a b)

/-- An operation on strings, which are ordered by their bytes. -/
def strings (op : TokenKind) (a b : Text) : Option Expr :=
  match op with
  | .plus => some (.string (a ++ b))
  | _ => comparison op (order Text.precedes a b)

/-- An operation on truth values. -/
def bools (op : TokenKind) (a b : Bool) : Option Expr :=
  match op with
  | .kwAnd => some (.bool (a && b))
  | .kwOr => some (.bool (a || b))
  | .eq => some (.bool (a == b))
  | .neq => some (.bool (a != b))
  | _ => none

/-- An operation on two constants of one type. -/
def binary (op : TokenKind) : Expr → Expr → Option Expr
  | .int a, .int b => ints op a b
  | .float a, .float b => floats op a b
  | .string a, .string b => strings op a b
  | .bool a, .bool b => bools op a b
  | _, _ => none

/-- An operation on one constant. -/
def unary (op : TokenKind) : Expr → Option Expr
  | .int a => if op == .minus then (Word.neg? a).map .int else none
  | .float a => if op == .minus then some (.float a.neg) else none
  | .bool a => if op == .kwNot then some (.bool !a) else none
  | _ => none

end PeakLang.Typed.Fold
