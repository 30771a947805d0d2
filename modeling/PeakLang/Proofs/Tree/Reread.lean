import PeakLang.Proofs.Tree.Moved

namespace PeakLang.Tree

namespace Expr

/-- Whether an expression is written as a type is: a name, or such an expression in brackets. -/
def isTypeLike : Expr → Bool
  | name _ _ => true
  | array [e] _ => e.isTypeLike
  | _ => false

/-- The type that is written as an expression is. -/
def asType : Expr → TypeExpr
  | name n _ => .named n .start
  | array [e] _ => .array e.asType .start
  | _ => .named [] .start

/-- Whether an expression is an array literal that is written as an array type is. -/
def isArrayType : Expr → Bool
  | array [e] _ => e.isTypeLike
  | _ => false

/-- Whether a call is written as an empty array is. -/
def callsArrayType (callee : Expr) (args : List Expr) : Bool := callee.isArrayType && args.isEmpty

mutual

/-- The expression that the text of an expression is read as. -/
def reread : Expr → Expr
  | name n _ => .name n .start
  | shot _ => .shot .start
  | int digits _ => .int digits .start
  | float digits _ => .float digits .start
  | string value _ => .string value .start
  | bool value _ => .bool value .start
  | array elements _ => .array (rereadAll elements) .start
  | emptyArray type _ => .emptyArray type.unplaced .start
  | member object n _ => .member object.reread n .start
  | index object i _ => .index object.reread i.reread .start
  | call callee args _ =>
    if callsArrayType callee args then .emptyArray callee.asType .start
    else .call callee.reread (rereadAll args) .start
  | unary op operand _ => .unary op operand.reread .start
  | binary op left right _ => .binary op left.reread right.reread .start
  | conditional test consequent alternate _ =>
    .conditional test.reread consequent.reread alternate.reread .start

def rereadAll : List Expr → List Expr
  | [] => []
  | e :: rest => e.reread :: rereadAll rest

end

theorem isTypeLike_of_isArrayType {e : Expr} (h : e.isArrayType = true) : e.isTypeLike = true := by
  unfold isArrayType at h
  split at h
  · exact h
  · exact nomatch h

theorem pieces_asType {e : Expr} (h : e.isTypeLike = true) : e.asType.pieces = e.pieces := by
  fun_induction isTypeLike e with
  | case1 => rfl
  | case2 e pos ih => simp only [asType, TypeExpr.pieces, pieces, piecesOfAll, ih h, Piece.separated,
      List.intercalate_singleton]
  | case3 => exact nomatch h

theorem level_reread (e : Expr) : e.reread.level = e.level := by
  cases e with
  | call => rw [reread]; split <;> rfl
  | _ => rfl

theorem isNegation_reread (e : Expr) : e.reread.isNegation = e.isNegation := by
  cases e with
  | call => rw [reread]; split <;> rfl
  | unary op => cases op <;> rfl
  | _ => rfl

mutual

theorem pieces_reread (e : Expr) : e.reread.pieces = e.pieces := by
  cases e with
  | name | shot | int | float | string | bool => rfl
  | array elements => simp only [reread, pieces, piecesOfAll_reread elements]
  | emptyArray type => simp only [reread, pieces, type.pieces_unplaced]
  | member object => simp only [reread, pieces, pieces_reread object, level_reread]
  | index object i =>
    simp only [reread, pieces, pieces_reread object, pieces_reread i, level_reread]
  | call callee args =>
    rw [reread]
    split
    case isTrue h =>
      obtain ⟨harray, hargs⟩ := Bool.and_eq_true_iff.mp h
      have hlevel : callee.level = 7 := by
        cases callee with
        | array => rfl
        | _ => exact nomatch harray
      rw [List.isEmpty_iff.mp hargs]
      simp only [pieces, pieces_asType (isTypeLike_of_isArrayType harray), piecesOfAll, hlevel,
        Piece.separated, Nat.lt_irrefl, decide_false, enclosedIf, Bool.false_eq_true, if_false,
        List.intercalate_nil, List.nil_append]
    case isFalse =>
      simp only [pieces, pieces_reread callee, piecesOfAll_reread args, level_reread]
  | unary op operand =>
    cases op <;>
      simp only [reread, pieces, pieces_reread operand, level_reread, isNegation_reread]
  | binary op left right =>
    simp only [reread, pieces, pieces_reread left, pieces_reread right, level_reread]
  | conditional test consequent alternate =>
    simp only [reread, pieces, pieces_reread test, pieces_reread consequent,
      pieces_reread alternate, level_reread]

theorem piecesOfAll_reread (es : List Expr) : piecesOfAll (rereadAll es) = piecesOfAll es := by
  cases es with
  | nil => rfl
  | cons e rest => simp only [rereadAll, piecesOfAll, pieces_reread e, piecesOfAll_reread rest]

end

end Expr

mutual

/-- The statement that the text of a statement is read as, if it reads back. -/
def Stmt.reread : Stmt → Stmt
  | .declare name readOnly value _ => .declare name readOnly value.reread .start
  | .function f => .function f.reread
  | .cls name fields methods _ =>
    .cls name (fields.map Field.unplaced) (Func.rereadAll methods) .start
  | .assign target value _ => .assign target.reread value.reread .start
  | .bump op target _ => .bump op target.reread .start
  | .branch b => .branch b.reread
  | .loop test body _ _ => .loop test.reread (Stmt.rereadAll body) .start .start
  | .forEach name _ collection body _ _ =>
    .forEach name .start collection.reread (Stmt.rereadAll body) .start .start
  | .leave _ => .leave .start
  | .ret value _ => .ret (value.map Expr.reread) .start
  | .print value _ => .print value.reread .start
  | .call callee args _ _ => .call callee.reread (Expr.rereadAll args) .start .start

def Func.reread : Func → Func
  | .mk name params result body _ _ =>
    .mk name (params.map Param.unplaced) (result.map TypeExpr.unplaced) (Stmt.rereadAll body)
      .start .start

def Branch.reread : Branch → Branch
  | .mk test body _ otherwise _ =>
    .mk test.reread (Stmt.rereadAll body) .start otherwise.reread .start

def Otherwise.reread : Otherwise → Otherwise
  | .nothing => .nothing
  | .block body _ => .block (Stmt.rereadAll body) .start
  | .chain next => .chain next.reread

def Stmt.rereadAll : List Stmt → List Stmt
  | [] => []
  | s :: rest => s.reread :: Stmt.rereadAll rest

def Func.rereadAll : List Func → List Func
  | [] => []
  | f :: rest => f.reread :: Func.rereadAll rest

end

mutual

/-- Whether the text of a statement is read as a statement again: the target of an assignment or a
step is one operand, and a call is not written as an empty array. -/
def Stmt.readsBack : Stmt → Bool
  | .assign target _ _ | .bump _ target _ => target.level == 7
  | .call callee args _ _ => !Expr.callsArrayType callee args
  | .function f => f.readsBack
  | .cls _ _ methods _ => Func.allReadBack methods
  | .branch b => b.readsBack
  | .loop _ body _ _ | .forEach _ _ _ body _ _ => Stmt.allReadBack body
  | .declare _ _ _ _ | .leave _ | .ret _ _ | .print _ _ => true

def Func.readsBack : Func → Bool
  | .mk _ _ _ body _ _ => Stmt.allReadBack body

def Branch.readsBack : Branch → Bool
  | .mk _ body _ otherwise _ => Stmt.allReadBack body && otherwise.readsBack

def Otherwise.readsBack : Otherwise → Bool
  | .nothing => true
  | .block body _ => Stmt.allReadBack body
  | .chain next => next.readsBack

def Stmt.allReadBack : List Stmt → Bool
  | [] => true
  | s :: rest => s.readsBack && Stmt.allReadBack rest

def Func.allReadBack : List Func → Bool
  | [] => true
  | f :: rest => f.readsBack && Func.allReadBack rest

end

mutual

theorem Stmt.pieces_reread (s : Stmt) (depth : Nat) : s.reread.pieces depth = s.pieces depth := by
  cases s with
  | declare name readOnly value => simp only [Stmt.reread, Stmt.pieces, value.pieces_reread]
  | function f => simp only [Stmt.reread, Stmt.pieces, Func.pieces_reread f]
  | cls name fields methods =>
    simp only [Stmt.reread, Stmt.pieces, fields_unplaced, List.isEmpty_map,
      Func.piecesOfAll_reread methods]
  | assign target value =>
    simp only [Stmt.reread, Stmt.pieces, target.pieces_reread, value.pieces_reread]
  | bump op target => simp only [Stmt.reread, Stmt.pieces, target.pieces_reread]
  | branch b => simp only [Stmt.reread, Stmt.pieces, Branch.pieces_reread b]
  | loop test body =>
    simp only [Stmt.reread, Stmt.pieces, test.pieces_reread, Stmt.piecesOfAll_reread body]
  | forEach name namePos collection body =>
    simp only [Stmt.reread, Stmt.pieces, collection.pieces_reread, Stmt.piecesOfAll_reread body]
  | leave => rfl
  | ret value =>
    cases value with
    | none => rfl
    | some value => simp only [Stmt.reread, Stmt.pieces, Option.map_some, value.pieces_reread]
  | print value => simp only [Stmt.reread, Stmt.pieces, value.pieces_reread]
  | call callee args callPos =>
    simp only [Stmt.reread, Stmt.pieces, Expr.pieces, callee.pieces_reread,
      Expr.piecesOfAll_reread args, callee.level_reread]

theorem Func.pieces_reread (f : Func) (depth : Nat) : f.reread.pieces depth = f.pieces depth := by
  obtain ⟨name, params, result, body, bodyPos, pos⟩ := f
  simp only [Func.reread, Func.pieces, functionHead_unplaced, Stmt.piecesOfAll_reread body]

theorem Branch.pieces_reread (b : Branch) (depth : Nat) : b.reread.pieces depth = b.pieces depth := by
  obtain ⟨test, body, bodyPos, otherwise, pos⟩ := b
  simp only [Branch.reread, Branch.pieces, test.pieces_reread, Stmt.piecesOfAll_reread body,
    Otherwise.pieces_reread otherwise]

theorem Otherwise.pieces_reread (o : Otherwise) (depth : Nat) :
    o.reread.pieces depth = o.pieces depth := by
  cases o with
  | nothing => rfl
  | block body => simp only [Otherwise.reread, Otherwise.pieces, Stmt.piecesOfAll_reread body]
  | chain next => simp only [Otherwise.reread, Otherwise.pieces, Branch.pieces_reread next]

theorem Stmt.piecesOfAll_reread (body : List Stmt) (depth : Nat) :
    Stmt.piecesOfAll depth (Stmt.rereadAll body) = Stmt.piecesOfAll depth body := by
  cases body with
  | nil => rfl
  | cons s rest =>
    simp only [Stmt.rereadAll, Stmt.piecesOfAll, Stmt.pieces_reread s,
      Stmt.piecesOfAll_reread rest]

theorem Func.piecesOfAll_reread (fs : List Func) (depth : Nat) (apart : Bool) :
    Func.piecesOfAll depth apart (Func.rereadAll fs) = Func.piecesOfAll depth apart fs := by
  cases fs with
  | nil => rfl
  | cons f rest =>
    simp only [Func.rereadAll, Func.piecesOfAll, Func.pieces_reread f, Func.piecesOfAll_reread rest]

end

namespace Program

/-- The program that the text of a program is read as, if it reads back. -/
def reread (program : Program) : Program := Stmt.rereadAll program

/-- Whether the text of a program is a program again. -/
def readsBack (program : Program) : Bool := Stmt.allReadBack program

theorem piecesApart_reread (before : Option Stmt) (body : List Stmt) :
    Stmt.piecesApart (before.map Stmt.reread) (Stmt.rereadAll body) =
      Stmt.piecesApart before body := by
  have hkind (s : Stmt) : s.reread.isDeclaration = s.isDeclaration := by cases s <;> rfl
  induction body generalizing before with
  | nil => rfl
  | cons s rest ih =>
    have hrest := ih (some s)
    rw [Option.map_some] at hrest
    simp only [Stmt.rereadAll, Stmt.piecesApart, hrest, Stmt.pieces_reread, hkind]
    cases before with
    | none => rfl
    | some b => simp only [Option.map_some, Option.any_some, hkind]

/-- What a text is read as has the same text. -/
theorem format_reread (program : Program) : program.reread.format = program.format := by
  rw [format, format, pieces, pieces]
  exact congrArg Piece.render (piecesApart_reread none program)

end Program

end PeakLang.Tree
