import PeakLang.Entity

namespace PeakLang

/-- One scope: what it declares, and what it lies in. -/
structure Scope where
  parent : Option Nat
  locals : List (Text × Entity)
  inLoop : Bool
  function : Option Signature
  cls : Option ClassRef
deriving DecidableEq

namespace Scope

/-- The entity that a scope declares by a name. -/
def find? (s : Scope) (name : Text) : Option Entity := s.locals.lookup name

/-- The scope of what is built in. -/
def root : Scope where
  parent := none
  locals := Entity.builtins.map fun e => (e.name, e)
  inLoop := false
  function := none
  cls := none

/-- What a new scope sets; it takes everything else from the scope around it. The class is dropped
first if asked for. -/
structure Overrides where
  inLoop : Option Bool
  function : Option Signature
  cls : Option ClassRef
  resetClass : Bool
deriving DecidableEq

namespace Overrides

/-- Nothing is set. -/
def nothing : Overrides := ⟨none, none, none, false⟩

/-- The body of a loop. -/
def ofLoop : Overrides := ⟨some true, none, none, false⟩

/-- The body of a function: it lies in no loop, and in no class even if it is nested in a method. -/
def ofFunction (signature : Option Signature) : Overrides := ⟨some false, signature, none, true⟩

/-- The body of a method. -/
def ofMethod (cls : Option ClassRef) (signature : Option Signature) : Overrides :=
  { ofFunction signature with cls }

end Overrides

/-- A new scope inside another. -/
def inside (around : Scope) (parent : Nat) (o : Overrides) : Scope where
  parent := some parent
  locals := []
  inLoop := o.inLoop.getD around.inLoop
  function := o.function.or around.function
  cls := o.cls.or (if o.resetClass then none else around.cls)

end Scope

/-- All scopes opened so far, each with the index of the scope around it, and the index of the current
one. The current scope and those around it are in force. The outermost holds what is built in, and the
next one the program. -/
structure Scopes where
  all : Array Scope
  current : Nat
deriving DecidableEq

namespace Scopes

def get (s : Scopes) (index : Nat) : Scope := s.all[index]?.getD .root

def top (s : Scopes) : Scope := s.get s.current

/-- The scopes from an index outwards. Every scope is opened after the one around it, so there are no
more than there are scopes. -/
def outward (s : Scopes) : (limit index : Nat) → List Scope
  | 0, _ => []
  | limit + 1, index =>
    let scope := s.get index
    scope :: match scope.parent with
      | some parent => s.outward limit parent
      | none => []

/-- The scopes in force, the current one first. -/
def chain (s : Scopes) : List Scope := s.outward s.all.size s.current

/-- Opens a scope inside the current one. -/
def push (s : Scopes) (o : Scope.Overrides) : Scopes where
  all := s.all.push (s.top.inside s.current o)
  current := s.all.size

/-- What is built in, and an empty program. -/
def start : Scopes := push ⟨#[.root], 0⟩ .nothing

/-- Leaves the current scope. The scope of the program cannot be left. -/
def pop? (s : Scopes) : Option Scopes :=
  match s.top.parent with
  | some (parent + 1) => some { s with current := parent + 1 }
  | _ => none

def find? (s : Scopes) (name : Text) : Option Entity := s.chain.findSome? fun scope => scope.find? name

/-- The entity that the current scope declares by a name. -/
def findLocal? (s : Scopes) (name : Text) : Option Entity := s.top.find? name

/-- Makes a name of the current scope stand for an entity. -/
def bind (s : Scopes) (name : Text) (e : Entity) : Scopes :=
  { s with all := s.all.modify s.current fun scope =>
      { scope with locals := (name, e) :: scope.locals.filter fun (n, _) => n != name } }

/-- Declares a name in the current scope, unless that scope declares it already. -/
def add? (s : Scopes) (name : Text) (e : Entity) : Option Scopes :=
  if (s.findLocal? name).isSome then none else some (s.bind name e)

/-- Whether the current scope lies in a loop. -/
def inLoop (s : Scopes) : Bool := s.top.inLoop

/-- The signature of the function that the current scope lies in. -/
def function (s : Scopes) : Option Signature := s.top.function

/-- The class whose method the current scope lies in. -/
def cls (s : Scopes) : Option ClassRef := s.top.cls

/-- The number of scopes in force inside the outermost. -/
def depth (s : Scopes) : Nat := s.chain.length - 1

/-- The message about a name that is declared already. -/
def duplicateMessage (name : Text) : Text := "Identifier " ++ name ++ " already declared"

/-- The message about leaving the scope of the program. -/
def popMessage : Text := "scope: pop of program scope"

end Scopes

end PeakLang
