import PeakLang.Analysis.Expr

namespace PeakLang.Analysis

open Typed (Expr)

/-- Declares a variable with a new identity. -/
def declareVariable (name : Text) (type : Ty) (readOnly : Bool) (pos : Pos) : Analyze Variable := do
  let v : Variable := ⟨← fresh, name, type, readOnly, false⟩
  declare name (.var v) pos
  return v

/-- Declares the parameters of a function. -/
def declareParams : List Tree.Param → List Ty → Analyze (List Variable)
  | p :: params, type :: types => do
    let v ← declareVariable p.name type false p.pos
    return v :: (← declareParams params types)
  | _, _ => return []

/-- The parameters and the body of a function, in a scope of their own. -/
def functionBody (params : List Tree.Param) (s : Signature) (o : Scope.Overrides)
    (body : Analyze (List Typed.Stmt)) :
    Analyze (List (Option Variable) × List Typed.Stmt) :=
  within o do
    let vars ← declareParams params s.params
    return (vars.map some, ← body)

/-- Declares a function. Its name is taken before its signature is known, so that the body may call
it. -/
def declareFunction (name : Text) (params : List Tree.Param) (result : Option TypeExpr) (pos : Pos) :
    Analyze (Function × Signature) := do
  let f : Function := ⟨← fresh, name, none, false⟩
  declare name (.function f) pos
  let s ← reading fun s => signature s.scopes params result
  let f := { f with signature := some s }
  redeclare name (.function f)
  return (f, s)

/-- The fields of a class, whose names must differ from those before. -/
def fieldsOf (s : Scopes) (taken : List Text) :
    List Tree.Field → Except SemanticError (List (Text × Ty))
  | [] => return []
  | f :: rest => do
    require (!taken.contains f.name) (.duplicate f.name) f.pos
    let type ← resolve s f.type
    return (f.name, type) :: (← fieldsOf s (f.name :: taken) rest)

/-- The methods of a class, whose names must differ from those before. -/
def methodsOf (s : Scopes) (taken : List Text) :
    List Tree.Func → Except SemanticError (List (Text × Signature))
  | [] => return []
  | m :: rest => do
    require (!taken.contains m.name) (.duplicate m.name) m.pos
    let sig ← signature s m.params m.result
    return (m.name, sig) :: (← methodsOf s (m.name :: taken) rest)

/-- Declares a class with its members. Its name is taken before its members are known, so that they
may refer to it. -/
def declareClass (name : Text) (fields : List Tree.Field) (methods : List Tree.Func) (pos : Pos) :
    Analyze (Class × List Signature) := do
  let ref : ClassRef := ⟨← fresh, name⟩
  declare name (.type name (.cls ref)) pos
  let fields' ← reading fun s => fieldsOf s.scopes [] fields
  let methods' ← reading fun s => methodsOf s.scopes (fields.map Tree.Field.name) methods
  let c := Class.ofMembers ref fields' (methods'.map fun (n, s) => (n, some s))
  register c
  return (c, methods'.map Prod.snd)

/-- A return of a value or of nothing, as the function around it asks for. -/
def returned (value : Option Tree.Expr) (pos : Pos) (s : State) : Except SemanticError Typed.Stmt :=
  match s.scopes.function with
  | none => .error ⟨.returnOutsideFunction, pos⟩
  | some sig =>
    if sig.result.isPrim .none then
      match value with
      | some _ => .error ⟨.valueReturned, pos⟩
      | none => .ok (.ret .missing)
    else
      match value with
      | none => .error ⟨.nothingReturned, pos⟩
      | some e => do
        let value ← expression s e
        requireAssignable value sig.result e.pos
        return .ret value

/-- A test, which must be a truth value. -/
def test (e : Tree.Expr) (s : State) : Except SemanticError Expr := do
  let t ← expression s e
  requireBoolean t e.pos
  return t

mutual

def statement : Tree.Stmt → Analyze Typed.Stmt
  | .declare name readOnly value pos => do
    let init ← reading fun s => expression s value
    let v ← declareVariable name init.type readOnly pos
    return .declare (some v) init
  | .function (.mk name params result body _ pos) => do
    let (f, s) ← declareFunction name params result pos
    let (vars, body) ← functionBody params s (.ofFunction (some s)) (statements body)
    return .function (some f) vars body
  | .cls name fields methods pos => do
    let (c, signatures) ← declareClass name fields methods pos
    return .cls (some c) (← methodBodies c.ref methods c.methods signatures)
  | .assign place value _ => reading fun s => do
    let target ← target s place
    let source ← expression s value
    requireAssignable source target.type value.pos
    return .assign target source
  | .bump op place _ => reading fun s => do
    let target ← target s place
    requireInteger target place.pos
    return .bump op target
  | .branch b => branch b
  | .loop e body _ _ => do
    let t ← reading (test e)
    return .loop t (← within .ofLoop (statements body))
  | .forEach name _ e body _ pos => do
    let (collection, base) ← reading fun s => do
      let collection ← expression s e
      return (collection, ← requireArray collection e.pos)
    within .ofLoop do
      let v ← declareVariable name base true pos
      return .forEach (some v) collection (← statements body)
  | .leave pos => reading fun s => do
    require s.scopes.inLoop .breakOutsideLoop pos
    return .leave
  | .ret value pos => reading (returned value pos)
  | .print value _ => reading fun s => do return .print (← expression s value)
  | .call callee args callPos _ => reading fun s => do
    let (callee, args, type) ← call s callee args callPos
    return .call callee args type

def branch : Tree.Branch → Analyze Typed.Stmt
  | .mk e body _ otherwise _ => do
    let t ← reading (test e)
    let consequent ← within .nothing (statements body)
    match ← alternate otherwise with
    | some alternate => return .branch t consequent alternate
    | none => return .shortBranch t consequent

/-- What follows a branch's body, if anything does. -/
def alternate : Tree.Otherwise → Analyze (Option (List Typed.Stmt))
  | .nothing => return none
  | .block body _ => return some (← within .nothing (statements body))
  | .chain next => return some [← branch next]

/-- Statements in a row. -/
def statements : List Tree.Stmt → Analyze (List Typed.Stmt)
  | [] => return []
  | s :: rest => do
    let s ← statement s
    return s :: (← statements rest)

def methodBodies (ref : ClassRef) :
    List Tree.Func → List (Option Method) → List Signature → Analyze (List Typed.MethodBody)
  | .mk _ params _ body _ _ :: funcs, m :: methods, s :: signatures => do
    let (vars, body) ← functionBody params s (.ofMethod (some ref) (some s)) (statements body)
    return .mk m vars body :: (← methodBodies ref funcs methods signatures)
  | _, _, _ => return []

end

/-- The typed tree of a program, or its first fault. Statements are analyzed in order; a name is known
from its declaration on, a function or class also inside itself. -/
def analyze (program : Tree.Program) : Except SemanticError Typed.Program :=
  (statements program .start).1

end PeakLang.Analysis
