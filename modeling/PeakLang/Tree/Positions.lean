import PeakLang.Tree

namespace PeakLang

inductive NodeKind where
  | program | block
  | declare | function | param | cls | field
  | assign | bump | branch | loop | forEach | forEachName | leave | ret | print | callStmt
  | name | shot | int | float | string | bool | array | emptyArray | member | index | call
  | unary | binary | conditional
  | namedType | arrayType | optionalType | functionType
deriving DecidableEq

abbrev Place := NodeKind × Pos

namespace TypeExpr

mutual

def places : TypeExpr → List Place
  | named _ p => [(.namedType, p)]
  | array base p => (.arrayType, p) :: base.places
  | optional base p => (.optionalType, p) :: base.places
  | function params result p => (.functionType, p) :: (placesOfAll params ++ result.places)

def placesOfAll : List TypeExpr → List Place
  | [] => []
  | t :: rest => t.places ++ placesOfAll rest

end

end TypeExpr

namespace Tree

namespace Expr

mutual

def places : Expr → List Place
  | name _ p => [(.name, p)]
  | shot p => [(.shot, p)]
  | int _ p => [(.int, p)]
  | float _ p => [(.float, p)]
  | string _ p => [(.string, p)]
  | bool _ p => [(.bool, p)]
  | array elements p => (.array, p) :: placesOfAll elements
  | emptyArray type p => (.emptyArray, p) :: type.places
  | member object _ p => (.member, p) :: object.places
  | index object i p => (.index, p) :: (object.places ++ i.places)
  | call callee args p => (.call, p) :: (callee.places ++ placesOfAll args)
  | unary _ operand p => (.unary, p) :: operand.places
  | binary _ left right p => (.binary, p) :: (left.places ++ right.places)
  | conditional test consequent alternate p =>
    (.conditional, p) :: (test.places ++ consequent.places ++ alternate.places)

def placesOfAll : List Expr → List Place
  | [] => []
  | e :: rest => e.places ++ placesOfAll rest

end

end Expr

namespace Param

def places (p : Param) : List Place := (.param, p.pos) :: p.type.places

end Param

namespace Field

def places (f : Field) : List Place := (.field, f.pos) :: f.type.places

end Field

mutual

def Stmt.places : Stmt → List Place
  | .declare _ _ value p => (.declare, p) :: value.places
  | .function f => f.places
  | .cls _ fields methods p =>
    (.cls, p) :: (fields.flatMap Field.places ++ Func.placesOfAll methods)
  | .assign target value p => (.assign, p) :: (target.places ++ value.places)
  | .bump _ target p => (.bump, p) :: target.places
  | .branch b => b.places
  | .loop test body bodyPos p =>
    (.loop, p) :: (test.places ++ (.block, bodyPos) :: Stmt.placesOfAll body)
  | .forEach _ namePos collection body bodyPos p =>
    (.forEach, p) :: (.forEachName, namePos) ::
      (collection.places ++ (.block, bodyPos) :: Stmt.placesOfAll body)
  | .leave p => [(.leave, p)]
  | .ret value p => (.ret, p) :: value.toList.flatMap Expr.places
  | .print value p => (.print, p) :: value.places
  | .call callee args callPos p => (.callStmt, p) :: (Expr.call callee args callPos).places

def Func.places : Func → List Place
  | .mk _ params result body bodyPos p =>
    (.function, p) :: (params.flatMap Param.places ++ result.toList.flatMap TypeExpr.places ++
      (.block, bodyPos) :: Stmt.placesOfAll body)

def Branch.places : Branch → List Place
  | .mk test body bodyPos otherwise p =>
    (.branch, p) :: (test.places ++ (.block, bodyPos) :: (Stmt.placesOfAll body ++
      otherwise.places))

def Otherwise.places : Otherwise → List Place
  | .nothing => []
  | .block body bodyPos => (.block, bodyPos) :: Stmt.placesOfAll body
  | .chain next => next.places

def Stmt.placesOfAll : List Stmt → List Place
  | [] => []
  | s :: rest => s.places ++ Stmt.placesOfAll rest

def Func.placesOfAll : List Func → List Place
  | [] => []
  | f :: rest => f.places ++ Func.placesOfAll rest

end

def Program.places (program : Program) : List Place :=
  (.program, program.pos) :: Stmt.placesOfAll program

end Tree

end PeakLang
