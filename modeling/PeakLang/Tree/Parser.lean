import PeakLang.Tree.Parser.Expr

namespace PeakLang.Tree.Parser

/-- Tokens with which an expression may start. -/
def startsExpression : TokenKind → Bool
  | .ident | .intLit | .floatLit | .stringLit | .kwTrue | .kwFalse | .kwShot | .lparen
  | .lbracket | .minus | .kwNot => true
  | _ => false

/-- A name with its type, as parameters and fields are written. -/
def typedName : Parse (Text × TypeExpr × Pos) := do
  let name ← expect .ident
  let _ ← expect .colon
  return (name.literal, ← type, name.pos)

def param : Parse Param := do
  let (name, type, pos) ← typedName
  return ⟨name, type, pos⟩

def field : Parse Field := do
  let (name, type, pos) ← typedName
  return ⟨name, type, pos⟩

def paramsWith : (fuel : Nat) → Parse (List Param)
  | 0 => exhausted fun _ => []
  | fuel + 1 => separated param (paramsWith fuel)

/-- The parameters of a function, up to the closing parenthesis. -/
def params : Parse (List Param) := do
  if ← at? .rparen then return []
  else paramsWith ((← get).ahead.length + 1)

/-- `let x = e` or `const x = e`. -/
def declaration (readOnly : Bool) : Parse Stmt := do
  let _ ← advance
  let name ← expect .ident
  let _ ← expect .assign
  let value ← expression
  return .declare name.literal readOnly value name.pos

/-- `serve`, or `serve e` if an expression follows. -/
def returnStmt : Parse Stmt := do
  let token ← advance
  if startsExpression (← kind) then return .ret (some (← expression)) token.pos
  else return .ret none token.pos

/-- The statement that goes on after an expression: a step, an assignment or a call. There is no
statement if the expression is none of them; that is a fault, unless the expression had one. -/
def simpleStmtFrom (pos : Pos) (before : Nat) (target : Expr) : Parse (Option Stmt) := do
  let token ← current
  match BumpOp.ofToken? token.kind with
  | some op =>
    let _ ← advance
    return some (.bump op target pos)
  | none =>
    if token.kind == .assign then
      let _ ← advance
      return some (.assign target (← expression) pos)
    else match target with
      | .call callee args callPos => return some (.call callee args callPos pos)
      | _ =>
        if (← faultCount) ≤ before then unexpected token .statement
        return none

/-- The statements that start with an expression. -/
def simpleStmt : Parse (Option Stmt) := do
  let pos := (← current).pos
  let before ← faultCount
  simpleStmtFrom pos before (← access)

/-- A field of a class that has methods already is a fault. -/
def checkFieldFirst (cls : Text) (methods : List Func) : Parse Unit := do
  let token ← current
  if !methods.isEmpty then fault (.lateField token.literal cls) token.pos

/-- Whether a token closes a block, if only because the source ends. -/
def closesBlock (k : TokenKind) : Bool := k == .rbrace || k == .eof

section Rules

variable (statement : Parse (Option Stmt)) (function : Parse Func) (branch : Parse Branch)
  (otherwise : Parse Otherwise) (block : Parse (List Stmt × Pos)) (statements : Parse (List Stmt))
  (members : Text → List Field → List Func → Parse (List Field × List Func))

/-- A statement; none if the tokens at hand make none. -/
def statementRule : Parse (Option Stmt) := do
  let token ← current
  match token.kind with
  | .kwLet => return some (← declaration false)
  | .kwConst => return some (← declaration true)
  | .kwItem => return some (.function (← function))
  | .kwOrder =>
    let _ ← advance
    let name ← expect .ident
    let _ ← expect .lbrace
    let (fields, methods) ← members name.literal [] []
    let _ ← expect .rbrace
    return some (.cls name.literal fields methods name.pos)
  | .kwBrew => return some (.branch (← branch))
  | .kwBlend =>
    let _ ← advance
    let test ← expression
    let (body, bodyPos) ← block
    return some (.loop test body bodyPos token.pos)
  | .kwRistretto =>
    let _ ← advance
    let name ← expect .ident
    let _ ← expect .kwEspresso
    let collection ← expression
    let (body, bodyPos) ← block
    return some (.forEach name.literal name.pos collection body bodyPos token.pos)
  | .kwTamp =>
    let _ ← advance
    return some (.leave token.pos)
  | .kwServe => return some (← returnStmt)
  | .kwRemake =>
    let _ ← advance
    return some (.print (← expression) token.pos)
  | _ => simpleStmt

/-- A function: `item f(…) -> T` and a block. -/
def functionRule : Parse Func := do
  let _ ← advance
  let name ← expect .ident
  let _ ← expect .lparen
  let params ← params
  let _ ← expect .rparen
  let result ← if ← accept .arrow then some <$> type else pure none
  let (body, bodyPos) ← block
  return .mk name.literal params result body bodyPos name.pos

/-- The fields and methods of a class, added to those already read. -/
def membersRule (cls : Text) (fields : List Field) (methods : List Func) :
    Parse (List Field × List Func) := do
  let token ← current
  match token.kind with
  | .rbrace | .eof => return (fields, methods)
  | .ident =>
    checkFieldFirst cls methods
    let next ← field
    members cls (fields ++ [next]) methods
  | .kwItem =>
    let next ← function
    members cls fields (methods ++ [next])
  | _ =>
    unexpected token .member
    let _ ← advance
    skipUntil fun k => k == .ident || k == .kwItem || k == .rbrace
    members cls fields methods

/-- A branch: `brew e`, a block, and what follows it. -/
def branchRule : Parse Branch := do
  let token ← advance
  let test ← expression
  let (body, bodyPos) ← block
  let otherwise ← otherwise
  return .mk test body bodyPos otherwise token.pos

/-- What follows the body of a branch. -/
def otherwiseRule : Parse Otherwise := do
  if ← accept .kwPull then
    if ← at? .kwBrew then return .chain (← branch)
    else
      let (body, bodyPos) ← block
      return .block body bodyPos
  else return .nothing

/-- Statements between braces, and the position of the opening one. -/
def blockRule : Parse (List Stmt × Pos) := do
  let opening ← expect .lbrace
  let body ← statements
  let _ ← expect .rbrace
  return (body, opening.pos)

/-- One statement of a list. After a fault the parser recovers. -/
def recovered (recover : Parse Unit) : Parse (List Stmt) := do
  let before ← faultCount
  let first ← statement
  if before < (← faultCount) then recover
  return first.toList

/-- One statement of a list. A token that nothing takes is dropped. -/
def attempt (recover : Parse Unit) : Parse (List Stmt) := do
  let size := (← get).ahead.length
  let first ← recovered statement recover
  if (← get).ahead.length == size then let _ ← advance
  return first

/-- Statements up to a token that closes them. -/
def statementsRule (closes : TokenKind → Bool) (first : Parse (List Stmt)) : Parse (List Stmt) := do
  if closes (← kind) then return []
  else return (← first) ++ (← statements)

end Rules

mutual

/-- A statement. The fuel bounds the depth of calls. -/
def statementWith : (fuel : Nat) → Parse (Option Stmt)
  | 0 => exhausted fun _ => none
  | fuel + 1 => statementRule (functionWith fuel) (branchWith fuel) (blockWith fuel) (membersWith fuel)

def functionWith : (fuel : Nat) → Parse Func
  | 0 => exhausted fun pos => .mk errorName [] none [] pos pos
  | fuel + 1 => functionRule (blockWith fuel)

def membersWith : (fuel : Nat) → (cls : Text) → List Field → List Func →
    Parse (List Field × List Func)
  | 0 => fun _ fields methods => exhausted fun _ => (fields, methods)
  | fuel + 1 => membersRule (functionWith fuel) (membersWith fuel)

def branchWith : (fuel : Nat) → Parse Branch
  | 0 => exhausted fun pos => .mk (.name errorName pos) [] pos .nothing pos
  | fuel + 1 => branchRule (otherwiseWith fuel) (blockWith fuel)

def otherwiseWith : (fuel : Nat) → Parse Otherwise
  | 0 => exhausted fun _ => .nothing
  | fuel + 1 => otherwiseRule (branchWith fuel) (blockWith fuel)

def blockWith : (fuel : Nat) → Parse (List Stmt × Pos)
  | 0 => exhausted fun pos => ([], pos)
  | fuel + 1 => blockRule (statementsWith fuel)

def statementsWith : (fuel : Nat) → Parse (List Stmt)
  | 0 => exhausted fun _ => []
  | fuel + 1 =>
    statementsRule (statementsWith fuel) closesBlock (attempt (statementWith fuel) synchronize)

end

/-- Fuel for the tokens ahead: a nested statement is read after a further token, at most five calls
deeper. -/
def statementFuel (s : State) : Nat := 8 * s.ahead.length + 8

def statement : Parse (Option Stmt) := do statementWith (statementFuel (← get))

/-- Takes tokens up to the next boundary between the statements of a program, where a closing brace is
dropped as well. -/
def resume : Parse Unit := do
  synchronize
  let _ ← accept .rbrace

def programWith : (fuel : Nat) → Parse Program
  | 0 => exhausted fun _ => []
  | fuel + 1 => statementsRule (programWith fuel) (· == .eof) (attempt statement resume)

/-- A program. Every round takes a token. -/
def program : Parse Program := do programWith ((← get).ahead.length + 1)

/-- What parsing a source gives: a tree, also after faults, and the faults in the order in which they
were found. -/
structure Result where
  program : Program
  faults : List (Fault × Pos)

namespace Result

def diagnostics (r : Result) : Diagnostics :=
  r.faults.map fun (f, pos) => .error pos f.message

/-- The tree of a source without faults, or what a source with faults reports. -/
def accepted (r : Result) : Except SyntaxError Program :=
  match r.diagnostics.first? with
  | some e => .error e
  | none => .ok r.program

end Result

/-- Parses tokens that end with the end of the source. -/
def parseTokens (tokens : List Token) : Result :=
  let (program, after) := program (State.ofTokens tokens)
  ⟨program, after.faults⟩

def parse (source : Text) : Result := parseTokens (Token.tokenize source)

end PeakLang.Tree.Parser
