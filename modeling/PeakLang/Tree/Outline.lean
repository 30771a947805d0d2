import PeakLang.Listing
import PeakLang.Text.Quoted
import PeakLang.Tree.Piece

namespace PeakLang.Tree

def declarationWord (readOnly : Bool) : Text := if readOnly then "const" else "let"

namespace Expr

mutual

def outline (depth : Nat) : Expr → Listing
  | name n _ => [.entry depth ("Identifier: " ++ n)]
  | shot _ => [.entry depth "Shot"]
  | int digits _ => [.entry depth ("IntLit: " ++ digits)]
  | float digits _ => [.entry depth ("FloatLit: " ++ digits)]
  | string value _ => [.entry depth ("StringLit: " ++ Quoted.quoted value)]
  | bool value _ => [.entry depth ("BoolLit: " ++ Text.ofBool value)]
  | array elements _ => .entry depth "ArrayLit" :: outlineAll (depth + 1) elements
  | emptyArray type _ => [.entry depth ("EmptyArray: " ++ type.text)]
  | member object n _ => .entry depth ("MemberExpr: " ++ n) :: object.outline (depth + 1)
  | index object i _ =>
    .entry depth "IndexExpr" :: (object.outline (depth + 1) ++ i.outline (depth + 1))
  | call callee args _ =>
    .entry depth "CallExpr" :: .entry (depth + 1) "Callee:" :: (callee.outline (depth + 2) ++
      if args.isEmpty then [.entry (depth + 1) "Args: none"]
      else .entry (depth + 1) "Args:" :: outlineAll (depth + 2) args)
  | unary op operand _ =>
    .entry depth ("UnaryExpr: " ++ op.token.symbol) :: operand.outline (depth + 1)
  | binary op left right _ =>
    .entry depth ("BinaryExpr: " ++ op.token.symbol) :: .entry (depth + 1) "Left:" ::
      (left.outline (depth + 2) ++ .entry (depth + 1) "Right:" :: right.outline (depth + 2))
  | conditional test consequent alternate _ =>
    .entry depth "ConditionalExpr" :: (test.outline (depth + 1) ++ consequent.outline (depth + 1) ++
      alternate.outline (depth + 1))

def outlineAll (depth : Nat) : List Expr → Listing
  | [] => []
  | e :: rest => e.outline depth ++ outlineAll depth rest

end

end Expr

def typedNameLine (depth : Nat) (name : Text) (type : TypeExpr) : Line :=
  .entry depth (name ++ ": " ++ type.text)

/-- The lines of a function's parameters. -/
def paramsOutline (depth : Nat) (params : List Param) : Listing :=
  if params.isEmpty then [.entry depth "Params: none"]
  else .entry depth "Params:" :: params.map fun p => typedNameLine (depth + 1) p.name p.type

/-- The lines of a class's fields. -/
def fieldsOutline (depth : Nat) (fields : List Field) : Listing :=
  if fields.isEmpty then []
  else .entry depth "Fields:" :: fields.map fun f => typedNameLine (depth + 1) f.name f.type

mutual

def Stmt.outline (depth : Nat) : Stmt → Listing
  | .declare name readOnly value _ =>
    .entry depth ("VarDecl: " ++ declarationWord readOnly ++ " " ++ name) ::
      value.outline (depth + 1)
  | .function f => f.outline depth
  | .cls name fields methods _ =>
    .entry depth ("Class: " ++ name) :: (fieldsOutline (depth + 1) fields ++
      if methods.isEmpty then []
      else .entry (depth + 1) "Methods:" :: Func.outlineAll (depth + 2) methods)
  | .assign target value _ =>
    .entry depth "AssignStmt" :: .entry (depth + 1) "Target:" :: (target.outline (depth + 2) ++
      .entry (depth + 1) "Value:" :: value.outline (depth + 2))
  | .bump op target _ =>
    .entry depth ("BumpStmt: " ++ op.token.name) :: target.outline (depth + 1)
  | .branch b => b.outline depth
  | .loop test body _ _ =>
    .entry depth "WhileStmt" :: .entry (depth + 1) "Test:" :: (test.outline (depth + 2) ++
      .entry (depth + 1) "Body:" :: Stmt.outlineAll (depth + 2) body)
  | .forEach name _ collection body _ _ =>
    .entry depth ("ForStmt: " ++ name) :: .entry (depth + 1) "Collection:" ::
      (collection.outline (depth + 2) ++
        .entry (depth + 1) "Body:" :: Stmt.outlineAll (depth + 2) body)
  | .leave _ => [.entry depth "BreakStmt"]
  | .ret none _ => [.entry depth "ReturnStmt"]
  | .ret (some value) _ =>
    .entry depth "ReturnStmt" :: .entry (depth + 1) "Value:" :: value.outline (depth + 2)
  | .print value _ => .entry depth "PrintStmt" :: value.outline (depth + 1)
  | .call callee args callPos _ =>
    .entry depth "ExprStmt" :: (Expr.call callee args callPos).outline (depth + 1)

def Func.outline (depth : Nat) : Func → Listing
  | .mk name params result body _ _ =>
    .entry depth ("Function: " ++ name) :: (paramsOutline (depth + 1) params ++
      (result.toList.map fun t => .entry (depth + 1) ("Returns: " ++ t.text)) ++
      .entry (depth + 1) "Body:" :: Stmt.outlineAll (depth + 2) body)

def Branch.outline (depth : Nat) : Branch → Listing
  | .mk test body _ otherwise _ =>
    .entry depth "IfStmt" :: .entry (depth + 1) "Test:" :: (test.outline (depth + 2) ++
      .entry (depth + 1) "Then:" :: (Stmt.outlineAll (depth + 2) body ++
        otherwise.outline (depth + 1)))

def Otherwise.outline (depth : Nat) : Otherwise → Listing
  | .nothing => []
  | .block body _ => .entry depth "Else:" :: Stmt.outlineAll (depth + 1) body
  | .chain next => .entry depth "Else:" :: next.outline (depth + 1)

def Stmt.outlineAll (depth : Nat) : List Stmt → Listing
  | [] => []
  | s :: rest => s.outline depth ++ Stmt.outlineAll depth rest

def Func.outlineAll (depth : Nat) : List Func → Listing
  | [] => []
  | f :: rest => f.outline depth ++ Func.outlineAll depth rest

end

def Program.outline (program : Program) : Listing :=
  .entry 0 "Program" :: Stmt.outlineAll 1 program

end PeakLang.Tree
