import PeakLang.Diagnostic
import PeakLang.Text.Letter
import PeakLang.Text.Rune
import PeakLang.Tree

namespace PeakLang.Tree

namespace Naming

/-- Whether a name starts with a character of a class and holds no underscore. -/
def startsWith (first : Char → Bool) (name : Text) : Bool :=
  match Rune.decode name with
  | [] => false
  | r :: _ => first r.char && !name.contains 95

/-- The convention for variables, fields, functions and methods. -/
def isLowerCamelCase (name : Text) : Bool := startsWith Letter.isLower name

/-- The convention for classes. -/
def isUpperCamelCase (name : Text) : Bool := startsWith Letter.isUpper name

end Naming

/-- What style warnings say. -/
inductive Remark where
  | variableName (name : Text)
  | functionName (name : Text)
  | className (name : Text)
  | emptyBody (function : Text)
  | unusedParam (name function : Text)
  | unusedVariable (name : Text)
  | neverReassigned (name : Text)
deriving DecidableEq

namespace Remark

def message : Remark → Text
  | variableName name => "variable '" ++ name ++ "' should use lowerCamelCase naming"
  | functionName name => "function '" ++ name ++ "' should use lowerCamelCase naming"
  | className name => "class '" ++ name ++ "' should use UpperCamelCase naming"
  | emptyBody function => "function '" ++ function ++ "' has an empty body"
  | unusedParam name function => "parameter '" ++ name ++ "' in '" ++ function ++ "' is never used"
  | unusedVariable name => "variable '" ++ name ++ "' is declared but never used"
  | neverReassigned name => "let " ++ name ++ " is never reassigned"

/-- What a warning suggests. -/
def hint : Remark → Text
  | neverReassigned _ => "declare it with const"
  | _ => []

end Remark

abbrev Remarks := List (Remark × Pos)

/-- Names, with repetitions. -/
abbrev Names := List Text

namespace Expr

mutual

def reads : Expr → Names
  | name n _ => [n]
  | array elements _ => readsOfAll elements
  | member object _ _ => object.reads
  | index object i _ => object.reads ++ i.reads
  | call callee args _ => callee.reads ++ readsOfAll args
  | unary _ operand _ => operand.reads
  | binary _ left right _ => left.reads ++ right.reads
  | conditional test consequent alternate _ => test.reads ++ consequent.reads ++ alternate.reads
  | shot _ | int _ _ | float _ _ | string _ _ | bool _ _ | emptyArray _ _ => []

def readsOfAll : List Expr → Names
  | [] => []
  | e :: rest => e.reads ++ readsOfAll rest

end

/-- The name that an expression is, if it is one. -/
def name? : Expr → Option Text
  | name n _ => some n
  | _ => none

end Expr

mutual

/-- The names that a statement reads, at any depth. The name that an assignment sets is not read. -/
def Stmt.reads : Stmt → Names
  | .declare _ _ value _ => value.reads
  | .function f => f.reads
  | .cls _ _ methods _ => Func.readsOfAll methods
  | .assign target value _ =>
    (if target.name?.isSome then [] else target.reads) ++ value.reads
  | .bump _ target _ => target.reads
  | .branch b => b.reads
  | .loop test body _ _ => test.reads ++ Stmt.readsOfAll body
  | .forEach _ _ collection body _ _ => collection.reads ++ Stmt.readsOfAll body
  | .leave _ => []
  | .ret value _ => value.toList.flatMap Expr.reads
  | .print value _ => value.reads
  | .call callee args _ _ => callee.reads ++ Expr.readsOfAll args

def Func.reads : Func → Names
  | .mk _ _ _ body _ _ => Stmt.readsOfAll body

def Branch.reads : Branch → Names
  | .mk test body _ otherwise _ => test.reads ++ Stmt.readsOfAll body ++ otherwise.reads

def Otherwise.reads : Otherwise → Names
  | .nothing => []
  | .block body _ => Stmt.readsOfAll body
  | .chain next => next.reads

def Stmt.readsOfAll : List Stmt → Names
  | [] => []
  | s :: rest => s.reads ++ Stmt.readsOfAll rest

def Func.readsOfAll : List Func → Names
  | [] => []
  | f :: rest => f.reads ++ Func.readsOfAll rest

end

mutual

/-- The names that a statement assigns or steps, at any depth. -/
def Stmt.writes : Stmt → Names
  | .assign target _ _ => target.name?.toList
  | .bump _ target _ => target.name?.toList
  | .function f => f.writes
  | .cls _ _ methods _ => Func.writesOfAll methods
  | .branch b => b.writes
  | .loop _ body _ _ => Stmt.writesOfAll body
  | .forEach _ _ _ body _ _ => Stmt.writesOfAll body
  | .declare _ _ _ _ | .leave _ | .ret _ _ | .print _ _ | .call _ _ _ _ => []

def Func.writes : Func → Names
  | .mk _ _ _ body _ _ => Stmt.writesOfAll body

def Branch.writes : Branch → Names
  | .mk _ body _ otherwise _ => Stmt.writesOfAll body ++ otherwise.writes

def Otherwise.writes : Otherwise → Names
  | .nothing => []
  | .block body _ => Stmt.writesOfAll body
  | .chain next => next.writes

def Stmt.writesOfAll : List Stmt → Names
  | [] => []
  | s :: rest => s.writes ++ Stmt.writesOfAll rest

def Func.writesOfAll : List Func → Names
  | [] => []
  | f :: rest => f.writes ++ Func.writesOfAll rest

end

/-- A remark if a condition holds. -/
def remarkIf (condition : Bool) (remark : Remark) (pos : Pos) : Remarks :=
  if condition then [(remark, pos)] else []

/-- A remark if a variable's name does not follow its convention. -/
def variableNaming (name : Text) (pos : Pos) : Remarks :=
  remarkIf (!Naming.isLowerCamelCase name) (.variableName name) pos

mutual

/-- A remark for each variable of a statement that is not among the names read, functions and classes
inside apart. -/
def Stmt.unused (used : Names) : Stmt → Remarks
  | .declare name _ _ pos => remarkIf (!used.contains name) (.unusedVariable name) pos
  | .branch b => b.unused used
  | .loop _ body _ _ => Stmt.unusedInAll used body
  | .forEach _ _ _ body _ _ => Stmt.unusedInAll used body
  | .function _ | .cls _ _ _ _ | .assign _ _ _ | .bump _ _ _ | .leave _ | .ret _ _ | .print _ _
  | .call _ _ _ _ => []

def Branch.unused (used : Names) : Branch → Remarks
  | .mk _ body _ otherwise _ => Stmt.unusedInAll used body ++ otherwise.unused used

def Otherwise.unused (used : Names) : Otherwise → Remarks
  | .nothing => []
  | .block body _ => Stmt.unusedInAll used body
  | .chain next => next.unused used

def Stmt.unusedInAll (used : Names) : List Stmt → Remarks
  | [] => []
  | s :: rest => s.unused used ++ Stmt.unusedInAll used rest

end

/-- The remarks on a function itself; `shownName` is what messages call it. -/
def Func.remarks (shownName : Text) (f : Func) : Remarks :=
  let used := Stmt.readsOfAll f.body
  remarkIf f.body.isEmpty (.emptyBody shownName) f.pos ++
    remarkIf (!Naming.isLowerCamelCase f.name) (.functionName f.name) f.pos ++
    (f.params.flatMap fun p => variableNaming p.name p.pos) ++
    (f.params.flatMap fun p =>
      remarkIf (!used.contains p.name) (.unusedParam p.name shownName) p.pos) ++
    Stmt.unusedInAll used f.body

/-- The remarks on a class itself and on its members. -/
def classRemarks (name : Text) (fields : List Field) (methods : List Func) (pos : Pos) : Remarks :=
  remarkIf (!Naming.isUpperCamelCase name) (.className name) pos ++
    (fields.flatMap fun f => variableNaming f.name f.pos) ++
    methods.flatMap fun m => m.remarks (name ++ "." ++ m.name)

mutual

/-- The remarks on the declarations of a statement, at any depth: on itself first, then on what it
holds. -/
def Stmt.remarks : Stmt → Remarks
  | .declare name _ _ pos => variableNaming name pos
  | .function f => f.remarks f.name ++ f.innerRemarks
  | .cls name fields methods pos =>
    classRemarks name fields methods pos ++ Func.innerRemarksOfAll methods
  | .branch b => b.remarks
  | .loop _ body _ _ => Stmt.remarksOfAll body
  | .forEach name namePos _ body _ _ => variableNaming name namePos ++ Stmt.remarksOfAll body
  | .assign _ _ _ | .bump _ _ _ | .leave _ | .ret _ _ | .print _ _ | .call _ _ _ _ => []

def Func.innerRemarks : Func → Remarks
  | .mk _ _ _ body _ _ => Stmt.remarksOfAll body

def Branch.remarks : Branch → Remarks
  | .mk _ body _ otherwise _ => Stmt.remarksOfAll body ++ otherwise.remarks

def Otherwise.remarks : Otherwise → Remarks
  | .nothing => []
  | .block body _ => Stmt.remarksOfAll body
  | .chain next => next.remarks

def Stmt.remarksOfAll : List Stmt → Remarks
  | [] => []
  | s :: rest => s.remarks ++ Stmt.remarksOfAll rest

def Func.innerRemarksOfAll : List Func → Remarks
  | [] => []
  | f :: rest => f.innerRemarks ++ Func.innerRemarksOfAll rest

end

mutual

/-- A remark for each variable of a statement, at any depth, that could be a constant because its
name is not among those written. -/
def Stmt.constants (written : Names) : Stmt → Remarks
  | .declare name readOnly _ pos =>
    remarkIf (!readOnly && !written.contains name) (.neverReassigned name) pos
  | .function f => f.constants written
  | .cls _ _ methods _ => Func.constantsInAll written methods
  | .branch b => b.constants written
  | .loop _ body _ _ => Stmt.constantsInAll written body
  | .forEach _ _ _ body _ _ => Stmt.constantsInAll written body
  | .assign _ _ _ | .bump _ _ _ | .leave _ | .ret _ _ | .print _ _ | .call _ _ _ _ => []

def Func.constants (written : Names) : Func → Remarks
  | .mk _ _ _ body _ _ => Stmt.constantsInAll written body

def Branch.constants (written : Names) : Branch → Remarks
  | .mk _ body _ otherwise _ => Stmt.constantsInAll written body ++ otherwise.constants written

def Otherwise.constants (written : Names) : Otherwise → Remarks
  | .nothing => []
  | .block body _ => Stmt.constantsInAll written body
  | .chain next => next.constants written

def Stmt.constantsInAll (written : Names) : List Stmt → Remarks
  | [] => []
  | s :: rest => s.constants written ++ Stmt.constantsInAll written rest

def Func.constantsInAll (written : Names) : List Func → Remarks
  | [] => []
  | f :: rest => f.constants written ++ Func.constantsInAll written rest

end

namespace Program

/-- The remarks on a program: first on its declarations, then on variables that could be
constants. -/
def remarks (program : Program) : Remarks :=
  Stmt.remarksOfAll program ++ Stmt.constantsInAll (Stmt.writesOfAll program) program

/-- The style warnings for a program. -/
def lint (program : Program) : Diagnostics :=
  program.remarks.map fun (remark, pos) => ⟨.warning, remark.message, pos, remark.hint⟩

end Program

end PeakLang.Tree
