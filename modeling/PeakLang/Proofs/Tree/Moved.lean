import PeakLang.Proofs.Tree.Unplaced
import PeakLang.Tree.Outline
import PeakLang.Tree.Positions

namespace PeakLang

variable (f : Pos → Pos)

/-- A token at another position. -/
def Token.moved (t : Token) : Token := { t with pos := f t.pos }

/-- A place at another position. -/
def Place.moved (place : Place) : Place := (place.1, f place.2)

namespace TypeExpr

mutual

/-- A type with all its positions moved. -/
def moved : TypeExpr → TypeExpr
  | named name p => .named name (f p)
  | array base p => .array base.moved (f p)
  | optional base p => .optional base.moved (f p)
  | function params result p => .function (movedAll params) result.moved (f p)

def movedAll : List TypeExpr → List TypeExpr
  | [] => []
  | t :: rest => t.moved :: movedAll rest

end

mutual

theorem moved_start (t : TypeExpr) : t.moved (fun _ => .start) = t.unplaced := by
  cases t with
  | named => rfl
  | array base | optional base => rw [moved, unplaced, moved_start base]
  | function params result => rw [moved, unplaced, moved_start result, movedAll_start params]

theorem movedAll_start (ts : List TypeExpr) : movedAll (fun _ => .start) ts = unplacedAll ts := by
  cases ts with
  | nil => rfl
  | cons t rest => rw [movedAll, unplacedAll, moved_start t, movedAll_start rest]

end

mutual

theorem moved_id (t : TypeExpr) : t.moved id = t := by
  cases t <;> simp only [moved, id, moved_id, movedAll_id]

theorem movedAll_id (ts : List TypeExpr) : movedAll id ts = ts := by
  cases ts <;> simp only [movedAll, moved_id, movedAll_id]

end

mutual

theorem pieces_moved (t : TypeExpr) : (t.moved f).pieces = t.pieces := by
  cases t with
  | named => rfl
  | array base | optional base => rw [moved, pieces, pieces, pieces_moved base]
  | function params result => rw [moved, pieces, pieces, pieces_moved result, piecesOfAll_moved params]

theorem piecesOfAll_moved (ts : List TypeExpr) : piecesOfAll (movedAll f ts) = piecesOfAll ts := by
  cases ts with
  | nil => rfl
  | cons t rest => rw [movedAll, piecesOfAll, piecesOfAll, pieces_moved t, piecesOfAll_moved rest]

end

theorem pieces_unplaced (t : TypeExpr) : t.unplaced.pieces = t.pieces := by
  rw [← t.moved_start, pieces_moved]

theorem text_moved (t : TypeExpr) : (t.moved f).text = t.text := congrArg Piece.render (pieces_moved f t)

mutual

theorem places_moved (t : TypeExpr) : (t.moved f).places = t.places.map (Place.moved f) := by
  cases t with
  | named => rfl
  | array base | optional base =>
    rw [moved, places, places, places_moved base, List.map_cons, Place.moved]
  | function params result =>
    rw [moved, places, places, places_moved result, placesOfAll_moved params, List.map_cons,
      List.map_append, Place.moved]

theorem placesOfAll_moved (ts : List TypeExpr) :
    placesOfAll (movedAll f ts) = (placesOfAll ts).map (Place.moved f) := by
  cases ts with
  | nil => rfl
  | cons t rest =>
    rw [movedAll, placesOfAll, placesOfAll, places_moved t, placesOfAll_moved rest, List.map_append]

end

end TypeExpr

namespace Tree

namespace Expr

mutual

/-- An expression with all its positions moved. -/
def moved : Expr → Expr
  | name n p => .name n (f p)
  | shot p => .shot (f p)
  | int digits p => .int digits (f p)
  | float digits p => .float digits (f p)
  | string value p => .string value (f p)
  | bool value p => .bool value (f p)
  | array elements p => .array (movedAll elements) (f p)
  | emptyArray type p => .emptyArray (type.moved f) (f p)
  | member object n p => .member object.moved n (f p)
  | index object i p => .index object.moved i.moved (f p)
  | call callee args p => .call callee.moved (movedAll args) (f p)
  | unary op operand p => .unary op operand.moved (f p)
  | binary op left right p => .binary op left.moved right.moved (f p)
  | conditional test consequent alternate p =>
    .conditional test.moved consequent.moved alternate.moved (f p)

def movedAll : List Expr → List Expr
  | [] => []
  | e :: rest => e.moved :: movedAll rest

end

mutual

theorem moved_start (e : Expr) : e.moved (fun _ => .start) = e.unplaced := by
  cases e with
  | name | shot | int | float | string | bool => rfl
  | array elements => rw [moved, unplaced, movedAll_start elements]
  | emptyArray type => rw [moved, unplaced, type.moved_start]
  | member object => rw [moved, unplaced, moved_start object]
  | index object i => rw [moved, unplaced, moved_start object, moved_start i]
  | call callee args => rw [moved, unplaced, moved_start callee, movedAll_start args]
  | unary op operand => rw [moved, unplaced, moved_start operand]
  | binary op left right => rw [moved, unplaced, moved_start left, moved_start right]
  | conditional test consequent alternate =>
    rw [moved, unplaced, moved_start test, moved_start consequent, moved_start alternate]

theorem movedAll_start (es : List Expr) : movedAll (fun _ => .start) es = unplacedAll es := by
  cases es with
  | nil => rfl
  | cons e rest => rw [movedAll, unplacedAll, moved_start e, movedAll_start rest]

end

mutual

theorem moved_id (e : Expr) : e.moved id = e := by
  cases e <;> simp only [moved, id, TypeExpr.moved_id, moved_id, movedAll_id]

theorem movedAll_id (es : List Expr) : movedAll id es = es := by
  cases es <;> simp only [movedAll, moved_id, movedAll_id]

end

theorem level_moved (e : Expr) : (e.moved f).level = e.level := by cases e <;> rfl

theorem isNegation_moved (e : Expr) : (e.moved f).isNegation = e.isNegation := by
  cases e with
  | unary op => cases op <;> rfl
  | _ => rfl

mutual

theorem pieces_moved (e : Expr) : (e.moved f).pieces = e.pieces := by
  cases e with
  | name | shot | int | float | string | bool => rfl
  | array elements => simp only [moved, pieces, piecesOfAll_moved elements]
  | emptyArray type => simp only [moved, pieces, type.pieces_moved]
  | member object => simp only [moved, pieces, pieces_moved object, level_moved]
  | index object i =>
    simp only [moved, pieces, pieces_moved object, pieces_moved i, level_moved]
  | call callee args =>
    simp only [moved, pieces, pieces_moved callee, piecesOfAll_moved args, level_moved]
  | unary op operand =>
    cases op <;>
      simp only [moved, pieces, pieces_moved operand, level_moved, isNegation_moved]
  | binary op left right =>
    simp only [moved, pieces, pieces_moved left, pieces_moved right, level_moved]
  | conditional test consequent alternate =>
    simp only [moved, pieces, pieces_moved test, pieces_moved consequent,
      pieces_moved alternate, level_moved]

theorem piecesOfAll_moved (es : List Expr) : piecesOfAll (movedAll f es) = piecesOfAll es := by
  cases es with
  | nil => rfl
  | cons e rest =>
    simp only [movedAll, piecesOfAll, pieces_moved e, piecesOfAll_moved rest]

end

mutual

theorem places_moved (e : Expr) : (e.moved f).places = e.places.map (Place.moved f) := by
  cases e with
  | name | shot | int | float | string | bool => rfl
  | array elements => simp [moved, places, placesOfAll_moved elements, Place.moved]
  | emptyArray type => simp [moved, places, type.places_moved, Place.moved]
  | member object | unary _ object => simp [moved, places, places_moved object, Place.moved]
  | index left right | binary _ left right =>
    simp [moved, places, places_moved left, places_moved right, Place.moved]
  | call callee args =>
    simp [moved, places, places_moved callee, placesOfAll_moved args, Place.moved]
  | conditional test consequent alternate =>
    simp [moved, places, places_moved test, places_moved consequent, places_moved alternate,
      Place.moved]

theorem placesOfAll_moved (es : List Expr) :
    placesOfAll (movedAll f es) = (placesOfAll es).map (Place.moved f) := by
  cases es with
  | nil => rfl
  | cons e rest =>
    rw [movedAll, placesOfAll, placesOfAll, places_moved e, placesOfAll_moved rest, List.map_append]

end

mutual

theorem outline_moved (e : Expr) (depth : Nat) : (e.moved f).outline depth = e.outline depth := by
  cases e with
  | name | shot | int | float | string | bool => rfl
  | array elements => rw [moved, outline, outline, outlineAll_moved elements]
  | emptyArray type => rw [moved, outline, outline, type.text_moved]
  | member object | unary _ object => rw [moved, outline, outline, outline_moved object]
  | index left right | binary _ left right =>
    rw [moved, outline, outline, outline_moved left, outline_moved right]
  | call callee args =>
    have hempty : (movedAll f args).isEmpty = args.isEmpty := by cases args <;> rfl
    rw [moved, outline, outline, outline_moved callee, outlineAll_moved args, hempty]
  | conditional test consequent alternate =>
    rw [moved, outline, outline, outline_moved test, outline_moved consequent,
      outline_moved alternate]

theorem outlineAll_moved (es : List Expr) (depth : Nat) :
    outlineAll depth (movedAll f es) = outlineAll depth es := by
  cases es with
  | nil => rfl
  | cons e rest => rw [movedAll, outlineAll, outlineAll, outline_moved e, outlineAll_moved rest]

end

end Expr

/-- A parameter with its positions moved. -/
def Param.moved (p : Param) : Param := ⟨p.name, p.type.moved f, f p.pos⟩

def Field.moved (x : Field) : Field := ⟨x.name, x.type.moved f, f x.pos⟩

mutual

/-- A statement with all its positions moved. -/
def Stmt.moved : Stmt → Stmt
  | .declare name readOnly value p => .declare name readOnly (value.moved f) (f p)
  | .function decl => .function decl.moved
  | .cls name fields methods p =>
    .cls name (fields.map (Field.moved f)) (Func.movedAll methods) (f p)
  | .assign target value p => .assign (target.moved f) (value.moved f) (f p)
  | .bump op target p => .bump op (target.moved f) (f p)
  | .branch b => .branch b.moved
  | .loop test body bodyPos p => .loop (test.moved f) (Stmt.movedAll body) (f bodyPos) (f p)
  | .forEach name namePos collection body bodyPos p =>
    .forEach name (f namePos) (collection.moved f) (Stmt.movedAll body) (f bodyPos) (f p)
  | .leave p => .leave (f p)
  | .ret value p => .ret (value.map (Expr.moved f)) (f p)
  | .print value p => .print (value.moved f) (f p)
  | .call callee args callPos p =>
    .call (callee.moved f) (Expr.movedAll f args) (f callPos) (f p)

def Func.moved : Func → Func
  | .mk name params result body bodyPos p =>
    .mk name (params.map (Param.moved f)) (result.map (TypeExpr.moved f)) (Stmt.movedAll body)
      (f bodyPos) (f p)

def Branch.moved : Branch → Branch
  | .mk test body bodyPos otherwise p =>
    .mk (test.moved f) (Stmt.movedAll body) (f bodyPos) otherwise.moved (f p)

def Otherwise.moved : Otherwise → Otherwise
  | .nothing => .nothing
  | .block body bodyPos => .block (Stmt.movedAll body) (f bodyPos)
  | .chain next => .chain next.moved

def Stmt.movedAll : List Stmt → List Stmt
  | [] => []
  | s :: rest => s.moved :: Stmt.movedAll rest

def Func.movedAll : List Func → List Func
  | [] => []
  | x :: rest => x.moved :: Func.movedAll rest

end

def Program.moved (program : Program) : Program := Stmt.movedAll f program

theorem Stmt.movedAll_append (xs ys : List Stmt) :
    Stmt.movedAll f (xs ++ ys) = Stmt.movedAll f xs ++ Stmt.movedAll f ys := by
  induction xs with
  | nil => rfl
  | cons x xs ih => rw [List.cons_append, Stmt.movedAll, Stmt.movedAll, ih, List.cons_append]

theorem Func.movedAll_append (xs ys : List Func) :
    Func.movedAll f (xs ++ ys) = Func.movedAll f xs ++ Func.movedAll f ys := by
  induction xs with
  | nil => rfl
  | cons x xs ih => rw [List.cons_append, Func.movedAll, Func.movedAll, ih, List.cons_append]

section Start

theorem Param.moved_start (p : Param) : p.moved (fun _ => .start) = p.unplaced := by
  rw [Param.moved, Param.unplaced, p.type.moved_start]

theorem Field.moved_start (x : Field) : x.moved (fun _ => .start) = x.unplaced := by
  rw [Field.moved, Field.unplaced, x.type.moved_start]

mutual

theorem Stmt.moved_start (s : Stmt) : s.moved (fun _ => .start) = s.unplaced := by
  cases s with
  | declare name readOnly value | print value => rw [Stmt.moved, Stmt.unplaced, value.moved_start]
  | function decl => rw [Stmt.moved, Stmt.unplaced, Func.moved_start decl]
  | cls name fields methods =>
    rw [Stmt.moved, Stmt.unplaced, funext Field.moved_start, Func.movedAll_start methods]
  | assign target value =>
    rw [Stmt.moved, Stmt.unplaced, target.moved_start, value.moved_start]
  | bump op target => rw [Stmt.moved, Stmt.unplaced, target.moved_start]
  | branch b => rw [Stmt.moved, Stmt.unplaced, Branch.moved_start b]
  | loop e body | forEach _ _ e body =>
    rw [Stmt.moved, Stmt.unplaced, e.moved_start, Stmt.movedAll_start body]
  | leave => rfl
  | ret value => rw [Stmt.moved, Stmt.unplaced, funext Expr.moved_start]
  | call callee args => rw [Stmt.moved, Stmt.unplaced, callee.moved_start, Expr.movedAll_start args]

theorem Func.moved_start (x : Func) : x.moved (fun _ => .start) = x.unplaced := by
  obtain ⟨name, params, result, body, bodyPos, pos⟩ := x
  rw [Func.moved, Func.unplaced, funext Param.moved_start, funext TypeExpr.moved_start,
    Stmt.movedAll_start body]

theorem Branch.moved_start (b : Branch) : b.moved (fun _ => .start) = b.unplaced := by
  obtain ⟨test, body, bodyPos, otherwise, pos⟩ := b
  rw [Branch.moved, Branch.unplaced, test.moved_start, Stmt.movedAll_start body,
    Otherwise.moved_start otherwise]

theorem Otherwise.moved_start (o : Otherwise) : o.moved (fun _ => .start) = o.unplaced := by
  cases o with
  | nothing => rfl
  | block body => rw [Otherwise.moved, Otherwise.unplaced, Stmt.movedAll_start body]
  | chain next => rw [Otherwise.moved, Otherwise.unplaced, Branch.moved_start next]

theorem Stmt.movedAll_start (body : List Stmt) :
    Stmt.movedAll (fun _ => .start) body = Stmt.unplacedAll body := by
  cases body with
  | nil => rfl
  | cons s rest => rw [Stmt.movedAll, Stmt.unplacedAll, Stmt.moved_start s, Stmt.movedAll_start rest]

theorem Func.movedAll_start (xs : List Func) :
    Func.movedAll (fun _ => .start) xs = Func.unplacedAll xs := by
  cases xs with
  | nil => rfl
  | cons x rest => rw [Func.movedAll, Func.unplacedAll, Func.moved_start x, Func.movedAll_start rest]

end

end Start

section Identity

theorem Param.moved_id : Param.moved id = id := by
  funext p
  rw [Param.moved, p.type.moved_id, id, id]

theorem Field.moved_id : Field.moved id = id := by
  funext x
  rw [Field.moved, x.type.moved_id, id, id]

mutual

theorem Stmt.moved_id (s : Stmt) : s.moved id = s := by
  cases s <;>
    simp only [Stmt.moved, id, Expr.moved_id, Expr.movedAll_id, Field.moved_id, List.map_id,
      funext Expr.moved_id, Option.map_id_fun', Func.moved_id, Func.movedAll_id, Branch.moved_id,
      Stmt.movedAll_id]

theorem Func.moved_id (x : Func) : x.moved id = x := by
  obtain ⟨name, params, result, body, bodyPos, pos⟩ := x
  simp only [Func.moved, id, Param.moved_id, List.map_id, funext TypeExpr.moved_id,
    Option.map_id_fun', Stmt.movedAll_id]

theorem Branch.moved_id (b : Branch) : b.moved id = b := by
  obtain ⟨test, body, bodyPos, otherwise, pos⟩ := b
  rw [Branch.moved, test.moved_id, Stmt.movedAll_id body, Otherwise.moved_id otherwise, id, id]

theorem Otherwise.moved_id (o : Otherwise) : o.moved id = o := by
  cases o <;> simp only [Otherwise.moved, id, Stmt.movedAll_id, Branch.moved_id]

theorem Stmt.movedAll_id (body : List Stmt) : Stmt.movedAll id body = body := by
  cases body <;> simp only [Stmt.movedAll, Stmt.moved_id, Stmt.movedAll_id]

theorem Func.movedAll_id (xs : List Func) : Func.movedAll id xs = xs := by
  cases xs <;> simp only [Func.movedAll, Func.moved_id, Func.movedAll_id]

end

end Identity

section Pieces

theorem functionHead_moved (name : Text) (params : List Param) (result : Option TypeExpr) :
    functionHead name (params.map (Param.moved f)) (result.map (TypeExpr.moved f)) =
      functionHead name params result := by
  have hparams : (params.map (Param.moved f)).map (fun p => typedName p.name p.type) =
      params.map fun p => typedName p.name p.type := by
    simp [Param.moved, typedName, TypeExpr.pieces_moved]
  cases result with
  | none => simp only [functionHead, hparams, Option.map_none]
  | some t =>
    simp only [functionHead, hparams, Option.map_some, Option.toList_some, List.flatMap_singleton,
      t.pieces_moved]

theorem fields_moved (fields : List Field) (depth : Nat) :
    (fields.map (Field.moved f)).flatMap (fun x => formatLine depth (typedName x.name x.type)) =
      fields.flatMap fun x => formatLine depth (typedName x.name x.type) := by
  simp [List.flatMap_map, Field.moved, typedName, TypeExpr.pieces_moved]

theorem functionHead_unplaced (name : Text) (params : List Param) (result : Option TypeExpr) :
    functionHead name (params.map Param.unplaced) (result.map TypeExpr.unplaced) =
      functionHead name params result := by
  have hmoved := functionHead_moved (fun _ => .start) name params result
  rwa [funext Param.moved_start, funext TypeExpr.moved_start] at hmoved

theorem fields_unplaced (fields : List Field) (depth : Nat) :
    (fields.map Field.unplaced).flatMap (fun x => formatLine depth (typedName x.name x.type)) =
      fields.flatMap fun x => formatLine depth (typedName x.name x.type) := by
  have hmoved := fields_moved (fun _ => .start) fields depth
  rwa [funext Field.moved_start] at hmoved

mutual

theorem Stmt.pieces_moved (s : Stmt) (depth : Nat) : (s.moved f).pieces depth = s.pieces depth := by
  cases s with
  | declare name readOnly value => simp only [Stmt.moved, Stmt.pieces, value.pieces_moved]
  | function decl => simp only [Stmt.moved, Stmt.pieces, Func.pieces_moved decl]
  | cls name fields methods =>
    simp only [Stmt.moved, Stmt.pieces, fields_moved, List.isEmpty_map,
      Func.piecesOfAll_moved methods]
  | assign target value =>
    simp only [Stmt.moved, Stmt.pieces, target.pieces_moved, value.pieces_moved]
  | bump op target => simp only [Stmt.moved, Stmt.pieces, target.pieces_moved]
  | branch b => simp only [Stmt.moved, Stmt.pieces, Branch.pieces_moved b]
  | loop test body =>
    simp only [Stmt.moved, Stmt.pieces, test.pieces_moved, Stmt.piecesOfAll_moved body]
  | forEach name namePos collection body =>
    simp only [Stmt.moved, Stmt.pieces, collection.pieces_moved,
      Stmt.piecesOfAll_moved body]
  | leave => rfl
  | ret value =>
    cases value with
    | none => rfl
    | some value => simp only [Stmt.moved, Stmt.pieces, Option.map_some, value.pieces_moved]
  | print value => simp only [Stmt.moved, Stmt.pieces, value.pieces_moved]
  | call callee args callPos =>
    simp only [Stmt.moved, Stmt.pieces, Expr.pieces, callee.pieces_moved,
      Expr.piecesOfAll_moved f args, callee.level_moved]

theorem Func.pieces_moved (x : Func) (depth : Nat) : (x.moved f).pieces depth = x.pieces depth := by
  obtain ⟨name, params, result, body, bodyPos, pos⟩ := x
  simp only [Func.moved, Func.pieces, functionHead_moved, Stmt.piecesOfAll_moved body]

theorem Branch.pieces_moved (b : Branch) (depth : Nat) :
    (b.moved f).pieces depth = b.pieces depth := by
  obtain ⟨test, body, bodyPos, otherwise, pos⟩ := b
  simp only [Branch.moved, Branch.pieces, test.pieces_moved, Stmt.piecesOfAll_moved body,
    Otherwise.pieces_moved otherwise]

theorem Otherwise.pieces_moved (o : Otherwise) (depth : Nat) :
    (o.moved f).pieces depth = o.pieces depth := by
  cases o with
  | nothing => rfl
  | block body => simp only [Otherwise.moved, Otherwise.pieces, Stmt.piecesOfAll_moved body]
  | chain next => simp only [Otherwise.moved, Otherwise.pieces, Branch.pieces_moved next]

theorem Stmt.piecesOfAll_moved (body : List Stmt) (depth : Nat) :
    Stmt.piecesOfAll depth (Stmt.movedAll f body) = Stmt.piecesOfAll depth body := by
  cases body with
  | nil => rfl
  | cons s rest =>
    simp only [Stmt.movedAll, Stmt.piecesOfAll, Stmt.pieces_moved s,
      Stmt.piecesOfAll_moved rest]

theorem Func.piecesOfAll_moved (xs : List Func) (depth : Nat) (apart : Bool) :
    Func.piecesOfAll depth apart (Func.movedAll f xs) = Func.piecesOfAll depth apart xs := by
  cases xs with
  | nil => rfl
  | cons x rest =>
    simp only [Func.movedAll, Func.piecesOfAll, Func.pieces_moved x,
      Func.piecesOfAll_moved rest]

end

namespace Program

theorem piecesApart_moved (before : Option Stmt) (body : List Stmt) :
    Stmt.piecesApart (before.map (Stmt.moved f)) (Stmt.movedAll f body) =
      Stmt.piecesApart before body := by
  have hkind (s : Stmt) : (s.moved f).isDeclaration = s.isDeclaration := by cases s <;> rfl
  induction body generalizing before with
  | nil => rfl
  | cons s rest ih =>
    have hrest := ih (some s)
    rw [Option.map_some] at hrest
    simp only [Stmt.movedAll, Stmt.piecesApart, hrest, Stmt.pieces_moved, hkind]
    cases before with
    | none => rfl
    | some b => simp only [Option.map_some, Option.any_some, hkind]

/-- The canonical text of a program does not depend on positions. -/
theorem format_moved (program : Program) : (program.moved f).format = program.format := by
  rw [format, format, pieces, pieces]
  exact congrArg Piece.render (piecesApart_moved f none program)

theorem format_unplaced (program : Program) : program.unplaced.format = program.format := by
  rw [Program.unplaced, ← Stmt.movedAll_start]
  exact format_moved _ program

end Program

end Pieces

section Places

theorem Param.places_moved (p : Param) : (p.moved f).places = p.places.map (Place.moved f) := by
  rw [Param.places, Param.places, List.map_cons, Param.moved, p.type.places_moved, Place.moved]

theorem Field.places_moved (x : Field) : (x.moved f).places = x.places.map (Place.moved f) := by
  rw [Field.places, Field.places, List.map_cons, Field.moved, x.type.places_moved, Place.moved]

theorem flatMap_moved {α : Type} {move : α → α} {places : α → List Place}
    (h : ∀ x, places (move x) = (places x).map (Place.moved f)) (xs : List α) :
    (xs.map move).flatMap places = (xs.flatMap places).map (Place.moved f) := by
  rw [List.flatMap_map, List.map_flatMap, funext h]

theorem toList_map_flatMap_moved {α : Type} {move : α → α} {places : α → List Place}
    (h : ∀ x, places (move x) = (places x).map (Place.moved f)) (x : Option α) :
    (x.map move).toList.flatMap places = (x.toList.flatMap places).map (Place.moved f) := by
  cases x with
  | none => rfl
  | some x => simp only [Option.map_some, Option.toList_some, List.flatMap_singleton, h]

mutual

theorem Stmt.places_moved (s : Stmt) : (s.moved f).places = s.places.map (Place.moved f) := by
  cases s with
  | declare name readOnly value | print value =>
    simp [Stmt.moved, Stmt.places, value.places_moved, Place.moved]
  | function decl => rw [Stmt.moved, Stmt.places, Stmt.places, Func.places_moved decl]
  | cls name fields methods =>
    simp only [Stmt.moved, Stmt.places, flatMap_moved f (Field.places_moved f),
      Func.placesOfAll_moved methods, List.map_cons, List.map_append, Place.moved]
  | assign target value =>
    simp [Stmt.moved, Stmt.places, target.places_moved, value.places_moved, Place.moved]
  | bump op target => simp [Stmt.moved, Stmt.places, target.places_moved, Place.moved]
  | branch b => rw [Stmt.moved, Stmt.places, Stmt.places, Branch.places_moved b]
  | loop e body | forEach _ _ e body =>
    simp [Stmt.moved, Stmt.places, e.places_moved, Stmt.placesOfAll_moved body, Place.moved]
  | leave => rfl
  | ret value =>
    simp only [Stmt.moved, Stmt.places, toList_map_flatMap_moved f (Expr.places_moved f),
      List.map_cons, Place.moved]
  | call callee args callPos pos =>
    have hcall := Expr.places_moved f (.call callee args callPos)
    rw [Expr.moved] at hcall
    rw [Stmt.moved, Stmt.places, Stmt.places, hcall, List.map_cons, Place.moved]

theorem Func.places_moved (x : Func) : (x.moved f).places = x.places.map (Place.moved f) := by
  obtain ⟨name, params, result, body, bodyPos, pos⟩ := x
  simp only [Func.moved, Func.places, flatMap_moved f (Param.places_moved f),
    toList_map_flatMap_moved f (TypeExpr.places_moved f), Stmt.placesOfAll_moved body, List.map_cons,
    List.map_append, Place.moved]

theorem Branch.places_moved (b : Branch) : (b.moved f).places = b.places.map (Place.moved f) := by
  obtain ⟨test, body, bodyPos, otherwise, pos⟩ := b
  simp [Branch.moved, Branch.places, test.places_moved, Stmt.placesOfAll_moved body,
    Otherwise.places_moved otherwise, Place.moved]

theorem Otherwise.places_moved (o : Otherwise) :
    (o.moved f).places = o.places.map (Place.moved f) := by
  cases o with
  | nothing => rfl
  | block body =>
    rw [Otherwise.moved, Otherwise.places, Otherwise.places, Stmt.placesOfAll_moved body,
      List.map_cons, Place.moved]
  | chain next => rw [Otherwise.moved, Otherwise.places, Otherwise.places, Branch.places_moved next]

theorem Stmt.placesOfAll_moved (body : List Stmt) :
    Stmt.placesOfAll (Stmt.movedAll f body) = (Stmt.placesOfAll body).map (Place.moved f) := by
  cases body with
  | nil => rfl
  | cons s rest =>
    rw [Stmt.movedAll, Stmt.placesOfAll, Stmt.placesOfAll, Stmt.places_moved s,
      Stmt.placesOfAll_moved rest, List.map_append]

theorem Func.placesOfAll_moved (xs : List Func) :
    Func.placesOfAll (Func.movedAll f xs) = (Func.placesOfAll xs).map (Place.moved f) := by
  cases xs with
  | nil => rfl
  | cons x rest =>
    rw [Func.movedAll, Func.placesOfAll, Func.placesOfAll, Func.places_moved x,
      Func.placesOfAll_moved rest, List.map_append]

end

end Places

section Outlines

theorem paramsOutline_moved (depth : Nat) (params : List Param) :
    paramsOutline depth (params.map (Param.moved f)) = paramsOutline depth params := by
  simp only [paramsOutline, List.isEmpty_map, List.map_map, Function.comp_def, Param.moved,
    typedNameLine, TypeExpr.text_moved]

theorem fieldsOutline_moved (depth : Nat) (fields : List Field) :
    fieldsOutline depth (fields.map (Field.moved f)) = fieldsOutline depth fields := by
  simp only [fieldsOutline, List.isEmpty_map, List.map_map, Function.comp_def, Field.moved,
    typedNameLine, TypeExpr.text_moved]

mutual

theorem Stmt.outline_moved (s : Stmt) (depth : Nat) : (s.moved f).outline depth = s.outline depth := by
  cases s with
  | declare name readOnly value | print value =>
    rw [Stmt.moved, Stmt.outline, Stmt.outline, value.outline_moved]
  | function decl => rw [Stmt.moved, Stmt.outline, Stmt.outline, Func.outline_moved decl]
  | cls name fields methods =>
    have hempty : (Func.movedAll f methods).isEmpty = methods.isEmpty := by cases methods <;> rfl
    rw [Stmt.moved, Stmt.outline, Stmt.outline, fieldsOutline_moved, hempty,
      Func.outlineAll_moved methods]
  | assign target value =>
    rw [Stmt.moved, Stmt.outline, Stmt.outline, target.outline_moved, value.outline_moved]
  | bump op target => rw [Stmt.moved, Stmt.outline, Stmt.outline, target.outline_moved]
  | branch b => rw [Stmt.moved, Stmt.outline, Stmt.outline, Branch.outline_moved b]
  | loop e body | forEach _ _ e body =>
    rw [Stmt.moved, Stmt.outline, Stmt.outline, e.outline_moved, Stmt.outlineAll_moved body]
  | leave => rfl
  | ret value =>
    cases value with
    | none => rfl
    | some value =>
      rw [Stmt.moved, Option.map_some, Stmt.outline, Stmt.outline, value.outline_moved]
  | call callee args callPos pos =>
    have hcall := Expr.outline_moved f (.call callee args callPos) (depth + 1)
    rw [Expr.moved] at hcall
    rw [Stmt.moved, Stmt.outline, Stmt.outline, hcall]

theorem Func.outline_moved (x : Func) (depth : Nat) : (x.moved f).outline depth = x.outline depth := by
  obtain ⟨name, params, result, body, bodyPos, pos⟩ := x
  have hresult : ((result.map (TypeExpr.moved f)).toList.map fun t =>
        Line.entry (depth + 1) ("Returns: " ++ t.text)) =
      result.toList.map fun t => Line.entry (depth + 1) ("Returns: " ++ t.text) := by
    cases result with
    | none => rfl
    | some t => simp only [Option.map_some, Option.toList_some, List.map_cons, t.text_moved]
  rw [Func.moved, Func.outline, Func.outline, paramsOutline_moved, hresult, Stmt.outlineAll_moved body]

theorem Branch.outline_moved (b : Branch) (depth : Nat) :
    (b.moved f).outline depth = b.outline depth := by
  obtain ⟨test, body, bodyPos, otherwise, pos⟩ := b
  rw [Branch.moved, Branch.outline, Branch.outline, test.outline_moved, Stmt.outlineAll_moved body,
    Otherwise.outline_moved otherwise]

theorem Otherwise.outline_moved (o : Otherwise) (depth : Nat) :
    (o.moved f).outline depth = o.outline depth := by
  cases o with
  | nothing => rfl
  | block body =>
    rw [Otherwise.moved, Otherwise.outline, Otherwise.outline, Stmt.outlineAll_moved body]
  | chain next =>
    rw [Otherwise.moved, Otherwise.outline, Otherwise.outline, Branch.outline_moved next]

theorem Stmt.outlineAll_moved (body : List Stmt) (depth : Nat) :
    Stmt.outlineAll depth (Stmt.movedAll f body) = Stmt.outlineAll depth body := by
  cases body with
  | nil => rfl
  | cons s rest =>
    rw [Stmt.movedAll, Stmt.outlineAll, Stmt.outlineAll, Stmt.outline_moved s,
      Stmt.outlineAll_moved rest]

theorem Func.outlineAll_moved (xs : List Func) (depth : Nat) :
    Func.outlineAll depth (Func.movedAll f xs) = Func.outlineAll depth xs := by
  cases xs with
  | nil => rfl
  | cons x rest =>
    rw [Func.movedAll, Func.outlineAll, Func.outlineAll, Func.outline_moved x,
      Func.outlineAll_moved rest]

end

/-- The outline of a program does not depend on positions. -/
theorem Program.outline_moved (program : Program) : (program.moved f).outline = program.outline := by
  rw [Program.outline, Program.outline, Program.moved, Stmt.outlineAll_moved]

end Outlines

end Tree

end PeakLang
