import PeakLang.Analysis.Fault
import PeakLang.Scope
import PeakLang.Tree

namespace PeakLang.Analysis

/-- What analysis knows at a point of a program: the scopes, the classes declared so far, and the next
identity that is free. -/
structure State where
  scopes : Scopes
  classes : List Class
  nextId : Nat
deriving DecidableEq

namespace State

/-- The state before a program. -/
def start : State := ⟨.start, [], Entity.firstFree⟩

def class? (s : State) (ref : ClassRef) : Option Class := s.classes.find? fun c => c.ref == ref

/-- The state inside a new scope. -/
def enter (s : State) (o : Scope.Overrides) : State := { s with scopes := s.scopes.push o }

/-- The state outside the current scope. -/
def leave (s : State) : State := { s with scopes := s.scopes.pop?.getD s.scopes }

end State

/-- Analyses of statements, which may declare names. The state is kept also after a fault. -/
abbrev Analyze := ExceptT SemanticError (StateM State)

/-- An analysis that only reads the state. -/
def reading {α : Type} (f : State → Except SemanticError α) : Analyze α := do
  match f (← get) with
  | .ok a => return a
  | .error e => throw e

/-- An identity that was free so far. -/
def fresh : Analyze Nat :=
  modifyGet fun s => (s.nextId, { s with nextId := s.nextId + 1 })

/-- Declares a name in the current scope. -/
def declare (name : Text) (e : Entity) (pos : Pos) : Analyze Unit := do
  let s ← get
  match s.scopes.add? name e with
  | some scopes => set { s with scopes }
  | none => throw ⟨.duplicate name, pos⟩

/-- Makes a declared name stand for an entity. -/
def redeclare (name : Text) (e : Entity) : Analyze Unit :=
  modify fun s => { s with scopes := s.scopes.bind name e }

/-- Makes the members of a class known. -/
def register (c : Class) : Analyze Unit :=
  modify fun s => { s with classes := s.classes ++ [c] }

/-- Analyzes inside a new scope, which is left again also after a fault. -/
def within {α : Type} (o : Scope.Overrides) (body : Analyze α) : Analyze α := fun s =>
  let (result, after) := body (s.enter o)
  (result, after.leave)

mutual

/-- The type that a type expression stands for. -/
def resolve (s : Scopes) : TypeExpr → Except SemanticError Ty
  | .named name pos =>
    match s.find? name with
    | none => .error ⟨.undeclared name, pos⟩
    | some (.type _ t) => .ok t
    | some _ => .error ⟨.typeExpected, pos⟩
  | .array base _ => return .array (← resolve s base)
  | .optional base _ => return .optional (← resolve s base)
  | .function params result _ => return .function (← resolveAll s params) (← resolve s result)

def resolveAll (s : Scopes) : List TypeExpr → Except SemanticError (List Ty)
  | [] => return []
  | t :: rest => return (← resolve s t) :: (← resolveAll s rest)

end

/-- The signature of a function; without a result type it returns nothing. -/
def signature (s : Scopes) (params : List Tree.Param) (result : Option TypeExpr) :
    Except SemanticError Signature := do
  let params ← params.mapM fun p => resolve s p.type
  match result with
  | some t => return ⟨params, ← resolve s t⟩
  | none => return ⟨params, .none⟩

end PeakLang.Analysis
