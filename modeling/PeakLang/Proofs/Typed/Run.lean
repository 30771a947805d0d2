import Mathlib.Tactic.Ring
import PeakLang.Typed

namespace PeakLang.Typed

/-- What an expression comes to. -/
inductive Value where
  | int (n : Int)
  | bool (b : Bool)
  | string (t : Text)
deriving DecidableEq

/-- Why a run fails. It is stuck where an operation has no meaning for its operands. -/
inductive Failure where
  | divisionByZero
  | negativeExponent
  | stuck
deriving DecidableEq

/-- The values of variables, by identity. -/
abbrev Store := Nat → Option Value

namespace Value

/-- An operation on exact integers. -/
def ofInts (op : TokenKind) (a b : Int) : Except Failure Value :=
  match op with
  | .plus => .ok (.int (a + b))
  | .minus => .ok (.int (a - b))
  | .star => .ok (.int (a * b))
  | .slash => if b = 0 then .error .divisionByZero else .ok (.int (a.tdiv b))
  | .percent => if b = 0 then .error .divisionByZero else .ok (.int (a.tmod b))
  | .power => if b < 0 then .error .negativeExponent else .ok (.int (a ^ b.toNat))
  | .eq => .ok (.bool (decide (a = b)))
  | .neq => .ok (.bool (decide (a ≠ b)))
  | .lt => .ok (.bool (decide (a < b)))
  | .leq => .ok (.bool (decide (a ≤ b)))
  | .gt => .ok (.bool (decide (b < a)))
  | .geq => .ok (.bool (decide (b ≤ a)))
  | _ => .error .stuck

def ofStrings (op : TokenKind) (a b : Text) : Except Failure Value :=
  match op with
  | .plus => .ok (.string (a ++ b))
  | .eq => .ok (.bool (decide (a = b)))
  | .neq => .ok (.bool (decide (a ≠ b)))
  | .lt => .ok (.bool (decide (a < b)))
  | .leq => .ok (.bool (decide (a ≤ b)))
  | .gt => .ok (.bool (decide (b < a)))
  | .geq => .ok (.bool (decide (b ≤ a)))
  | _ => .error .stuck

/-- An operation on truth values that needs both of them. -/
def ofBools (op : TokenKind) (a b : Bool) : Except Failure Value :=
  match op with
  | .eq => .ok (.bool (decide (a = b)))
  | .neq => .ok (.bool (decide (a ≠ b)))
  | _ => .error .stuck

/-- An operation on two values of one type. -/
def binary (op : TokenKind) : Value → Value → Except Failure Value
  | int a, int b => ofInts op a b
  | string a, string b => ofStrings op a b
  | bool a, bool b => ofBools op a b
  | _, _ => .error .stuck

def unary (op : TokenKind) : Value → Except Failure Value
  | int n => if op = .minus then .ok (.int (-n)) else .error .stuck
  | bool b => if op = .kwNot then .ok (.bool !b) else .error .stuck
  | string _ => .error .stuck

/-- A value that has to be a truth value. -/
def asBool : Value → Except Failure Bool
  | bool b => .ok b
  | _ => .error .stuck

end Value

namespace Expr

/-- What an expression comes to. Integers are exact, a quotient is cut toward zero, and strings are
ordered by their bytes; calls and floating-point numbers have no meaning here. The right operand of
`and` and `or` is left alone where the left one decides. -/
def eval (s : Store) : Expr → Except Failure Value
  | int n => .ok (.int n.toInt)
  | string t => .ok (.string t)
  | bool b => .ok (.bool b)
  | var (some v) =>
    match s v.id with
    | some x => .ok x
    | none => .error .stuck
  | unary op operand _ => do Value.unary op (← operand.eval s)
  | binary .kwAnd left right _ => do
    if ← (← left.eval s).asBool then return .bool (← (← right.eval s).asBool) else return .bool false
  | binary .kwOr left right _ => do
    if ← (← left.eval s).asBool then return .bool true else return .bool (← (← right.eval s).asBool)
  | binary op left right _ => do Value.binary op (← left.eval s) (← right.eval s)
  | conditional test consequent alternate _ => do
    if ← (← test.eval s).asBool then consequent.eval s else alternate.eval s
  | _ => .error .stuck

/-- What several expressions come to. -/
def evalAll (s : Store) : List Expr → Except Failure (List Value)
  | [] => .ok []
  | e :: rest => do return (← e.eval s) :: (← evalAll s rest)

/-- The elements of an array that is written out. -/
def elements (s : Store) : Expr → Except Failure (List Value)
  | array es _ => evalAll s es
  | emptyArray _ => .ok []
  | _ => .error .stuck

/-- What a test comes to. -/
def holds (s : Store) (e : Expr) : Except Failure Bool := do (← e.eval s).asBool

end Expr

/-- What a run has come to: the store, and what was printed so far. -/
structure Config where
  store : Store
  output : List Value

namespace Config

def set (c : Config) (v : Variable) (x : Value) : Config :=
  { c with store := fun id => if id = v.id then some x else c.store id }

def print (c : Config) (x : Value) : Config := { c with output := c.output ++ [x] }

end Config

/-- How a run ends: cut short, with a failure, or well. A run that ended well either got to its end or
left the loop around it. -/
inductive Outcome where
  | cutShort
  | failed (f : Failure)
  | done (left : Bool) (c : Config)

namespace Outcome

/-- Goes on with what was found, unless finding it failed. -/
def ofResult {α : Type} (r : Except Failure α) (next : α → Outcome) : Outcome :=
  match r with
  | .ok a => next a
  | .error f => failed f

/-- Goes on after a run that got to its end. -/
def andThen (o : Outcome) (next : Config → Outcome) : Outcome :=
  match o with
  | done false c => next c
  | other => other

/-- Goes on after one round of a loop, unless that round left the loop. -/
def afterRound (o : Outcome) (next : Config → Outcome) : Outcome :=
  match o with
  | done false c => next c
  | done true c => done false c
  | other => other

end Outcome

/-- Runs a body as long as a test holds. -/
def repeatWhile (test : Store → Except Failure Bool) (body : Config → Outcome) :
    (rounds : Nat) → Config → Outcome
  | 0, _ => .cutShort
  | rounds + 1, c =>
    .ofResult (test c.store) fun
      | true => (body c).afterRound (repeatWhile test body rounds)
      | false => .done false c

/-- Runs a body once for each of several values of a variable. -/
def repeatFor (v : Variable) (body : Config → Outcome) : List Value → Config → Outcome
  | [], c => .done false c
  | x :: rest, c => (body (c.set v x)).afterRound (repeatFor v body rest)

mutual

/-- Runs a statement. Each loop takes at most `rounds` rounds. -/
def Stmt.exec (rounds : Nat) : Stmt → Config → Outcome
  | .declare (some v) init, c => .ofResult (init.eval c.store) fun x => .done false (c.set v x)
  | .assign (.var (some v)) source, c =>
    .ofResult (source.eval c.store) fun x => .done false (c.set v x)
  | .bump op (.var (some v)), c =>
    match c.store v.id with
    | some (.int n) => .done false (c.set v (.int (if op = .increment then n + 1 else n - 1)))
    | _ => .failed .stuck
  | .branch test consequent alternate, c =>
    .ofResult (test.holds c.store) fun
      | true => Stmt.execAll rounds consequent c
      | false => Stmt.execAll rounds alternate c
  | .shortBranch test consequent, c =>
    .ofResult (test.holds c.store) fun
      | true => Stmt.execAll rounds consequent c
      | false => .done false c
  | .loop test body, c =>
    repeatWhile (fun s => test.holds s) (fun c => Stmt.execAll rounds body c) rounds c
  | .forEach (some v) collection body, c =>
    .ofResult (collection.elements c.store) fun xs =>
      repeatFor v (fun c => Stmt.execAll rounds body c) xs c
  | .leave, c => .done true c
  | .print value, c => .ofResult (value.eval c.store) fun x => .done false (c.print x)
  | _, _ => .failed .stuck

def Stmt.execAll (rounds : Nat) : List Stmt → Config → Outcome
  | [], c => .done false c
  | s :: rest, c => (Stmt.exec rounds s c).andThen fun c => Stmt.execAll rounds rest c

end

def Program.run (program : Program) (rounds : Nat) (s : Store) : Outcome :=
  Stmt.execAll rounds program ⟨s, []⟩

/-- The types of integers, truth values and strings. -/
def isPlainType (t : Ty) : Bool := t.isPrim .pump || t.isPrim .boolean || t.isPrim .roast

/-- Whether an expression is made of operations on integers, truth values and strings alone. -/
def Expr.isPlain : Expr → Bool
  | .int _ | .string _ | .bool _ => true
  | .var (some v) => isPlainType v.type
  | .unary _ operand _ => operand.isPlain
  | .binary _ left right _ => left.isPlain && right.isPlain
  | .conditional test consequent alternate _ =>
    test.isPlain && consequent.isPlain && alternate.isPlain
  | _ => false

/-- Whether an expression is an array written out, with plain elements. -/
def Expr.isPlainArray : Expr → Bool
  | .array elements _ => elements.all Expr.isPlain
  | .emptyArray _ => true
  | _ => false

def Expr.isPlainVariable : Expr → Bool
  | .var (some v) => isPlainType v.type
  | _ => false

mutual

/-- Whether a statement is made of plain expressions and has no calls, functions or classes. -/
def Stmt.isPlain : Stmt → Bool
  | .declare (some _) init => init.isPlain
  | .assign target source => target.isPlainVariable && source.isPlain
  | .bump _ target => target.isPlainVariable
  | .branch test consequent alternate =>
    test.isPlain && Stmt.isPlainAll consequent && Stmt.isPlainAll alternate
  | .shortBranch test consequent => test.isPlain && Stmt.isPlainAll consequent
  | .loop test body => test.isPlain && Stmt.isPlainAll body
  | .forEach (some _) collection body => collection.isPlainArray && Stmt.isPlainAll body
  | .leave => true
  | .print value => value.isPlain
  | _ => false

def Stmt.isPlainAll : List Stmt → Bool
  | [] => true
  | s :: rest => s.isPlain && Stmt.isPlainAll rest

end

end PeakLang.Typed
