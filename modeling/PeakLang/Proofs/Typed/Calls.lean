import PeakLang.Proofs.Typed.Check

namespace PeakLang.Typed

namespace Expr

mutual

/-- What is called in an expression, from left to right. -/
def callees : Expr → List Expr
  | call callee args _ => callee :: (callee.callees ++ calleesOfAll args)
  | unary _ x _ => x.callees
  | binary _ x y _ => x.callees ++ y.callees
  | conditional test consequent alternate _ =>
    test.callees ++ (consequent.callees ++ alternate.callees)
  | index object i _ => object.callees ++ i.callees
  | member object _ _ _ => object.callees
  | array elements _ => calleesOfAll elements
  | missing | int _ | float _ | string _ | bool _ | var _ | function _ | cls _ _ | self _
  | emptyArray _ => []

def calleesOfAll : List Expr → List Expr
  | [] => []
  | e :: rest => e.callees ++ calleesOfAll rest

end

mutual

/-- Whether an expression has no conditional in it. -/
def isStraight : Expr → Bool
  | conditional _ _ _ _ => false
  | call callee args _ => callee.isStraight && isStraightAll args
  | unary _ x _ => x.isStraight
  | binary _ x y _ => x.isStraight && y.isStraight
  | index object i _ => object.isStraight && i.isStraight
  | member object _ _ _ => object.isStraight
  | array elements _ => isStraightAll elements
  | missing | int _ | float _ | string _ | bool _ | var _ | function _ | cls _ _ | self _
  | emptyArray _ => true

def isStraightAll : List Expr → Bool
  | [] => true
  | e :: rest => e.isStraight && isStraightAll rest

end

def makesCall (e : Expr) : Bool := !e.callees.isEmpty

/-- Whether an operation on simplified operands drops one that makes a call: the other factor of a
zero, the divisor of a zero, the exponent of a one, or the base of a zeroth power. -/
def absorbs (op : TokenKind) (x y : Expr) : Bool :=
  match op with
  | .star =>
    !y.isOne && !x.isOne && ((y.isZero && x.makesCall) || (x.isZero && y.makesCall))
  | .slash => !y.isOne && x.isZero && y.makesCall
  | .power => !y.isOne && ((x.isOne && y.makesCall) || (y.isZero && x.makesCall))
  | _ => false

mutual

/-- Whether some operation in an expression drops an operand that makes a call, once its operands are
simplified. -/
def absorbsCall : Expr → Bool
  | binary op x y _ => x.absorbsCall || y.absorbsCall || absorbs op x.simplify y.simplify
  | unary _ x _ => x.absorbsCall
  | conditional test consequent alternate _ =>
    test.absorbsCall || consequent.absorbsCall || alternate.absorbsCall
  | call callee args _ => callee.absorbsCall || absorbsCallInAny args
  | index object i _ => object.absorbsCall || i.absorbsCall
  | member object _ _ _ => object.absorbsCall
  | array elements _ => absorbsCallInAny elements
  | missing | int _ | float _ | string _ | bool _ | var _ | function _ | cls _ _ | self _
  | emptyArray _ => false

def absorbsCallInAny : List Expr → Bool
  | [] => false
  | e :: rest => e.absorbsCall || absorbsCallInAny rest

end

section Operations

variable {op : TokenKind} {x y e : Expr} {type : Ty}

theorem callees_of_isLiteral (h : e.isLiteral = true) : e.callees = [] := by
  cases e with
  | int | float | string | bool => rfl
  | _ => cases h

theorem callees_of_isBool {b : Bool} (h : e.isBool b = true) : e.callees = [] := by
  rw [eq_bool_of_isBool h]
  rfl

theorem callees_of_isZero (h : e.isZero = true) : e.callees = [] := by
  cases e with
  | int | float => rfl
  | _ => cases h

theorem callees_of_isOne (h : e.isOne = true) : e.callees = [] := by
  cases e with
  | int | float => rfl
  | _ => cases h

theorem makesCall_eq_false_iff : e.makesCall = false ↔ e.callees = [] := by
  rw [makesCall, Bool.not_eq_false', List.isEmpty_iff]

/-- What is left of calls: they keep their order, and none is lost unless `lost` says so. -/
structure KeepsCalls (lost : Bool) (before after : List Expr) : Prop where
  sublist : after.Sublist before
  eq_iff : after = before ↔ lost = false

namespace KeepsCalls

theorem refl (calls : List Expr) : KeepsCalls false calls calls :=
  ⟨.refl _, iff_of_true rfl rfl⟩

theorem left (hy : y.callees = []) : KeepsCalls false (x.callees ++ y.callees) x.callees := by
  rw [hy, List.append_nil]
  exact .refl _

theorem right (hx : x.callees = []) : KeepsCalls false (x.callees ++ y.callees) y.callees := by
  rw [hx]
  exact .refl _

theorem dropped (e : Expr) : KeepsCalls e.makesCall e.callees [] := by
  refine ⟨List.nil_sublist _, ?_⟩
  rw [makesCall_eq_false_iff]
  exact eq_comm

theorem dropLeft (hy : y.callees = []) :
    KeepsCalls x.makesCall (x.callees ++ y.callees) y.callees := by
  rw [hy, List.append_nil]
  exact dropped x

theorem dropRight (hx : x.callees = []) :
    KeepsCalls y.makesCall (x.callees ++ y.callees) x.callees := by
  rw [hx]
  exact dropped y

variable {lost lost' : Bool} {before before' after after' last : List Expr}

/-- Calls in a row are all kept if those of both parts are. -/
theorem append (h : KeepsCalls lost before after) (h' : KeepsCalls lost' before' after') :
    KeepsCalls (lost || lost') (before ++ before') (after ++ after') := by
  refine ⟨h.sublist.append h'.sublist, ?_⟩
  rw [Bool.or_eq_false_iff, ← h.eq_iff, ← h'.eq_iff]
  constructor
  · intro heq
    have hlength := congrArg List.length heq
    rw [List.length_append, List.length_append] at hlength
    have hle := h.sublist.length_le
    have hle' := h'.sublist.length_le
    exact ⟨h.sublist.eq_of_length (by omega), h'.sublist.eq_of_length (by omega)⟩
  · rintro ⟨rfl, rfl⟩
    rfl

theorem trans (h : KeepsCalls lost before after) (h' : KeepsCalls lost' after last) :
    KeepsCalls (lost || lost') before last := by
  refine ⟨h'.sublist.trans h.sublist, ?_⟩
  rw [Bool.or_eq_false_iff, ← h.eq_iff, ← h'.eq_iff]
  constructor
  · rintro rfl
    have heq : after = last := h.sublist.antisymm h'.sublist
    exact ⟨heq, heq.symm⟩
  · rintro ⟨rfl, rfl⟩
    rfl

end KeepsCalls

theorem logical?_callees (h : logical? op x y = some e) :
    KeepsCalls (absorbs op x y) (x.callees ++ y.callees) e.callees := by
  unfold logical? at h
  split at h
  case h_1 | h_2 =>
    split at h
    case isTrue hx =>
      cases h
      exact .right (callees_of_isBool hx)
    case isFalse =>
      obtain ⟨hy, ⟨⟩⟩ := Option.ite_none_right_eq_some.mp h
      exact .left (callees_of_isBool hy)
  case h_3 => cases h

/-- A product with a zero drops the other factor. -/
theorem product_callees :
    KeepsCalls (absorbs .star x y) (x.callees ++ y.callees)
      ((algebraic? .star x y type).getD (.binary .star x y type)).callees := by
  rw [absorbs, algebraic?]
  by_cases hy : y.isOne = true
  · rw [if_pos hy, hy]
    exact .left (callees_of_isOne hy)
  by_cases hx : x.isOne = true
  · rw [if_neg hy, if_pos hx, hx, Bool.not_true, Bool.and_false, Bool.false_and]
    exact .right (callees_of_isOne hx)
  rw [if_neg hy, if_neg hx, Bool.eq_false_iff.mpr hy, Bool.eq_false_iff.mpr hx]
  by_cases hy : y.isZero = true
  · have hcalls := callees_of_isZero hy
    rw [if_pos hy, hy, makesCall_eq_false_iff.mpr hcalls, Bool.and_false, Bool.or_false]
    exact .dropLeft hcalls
  rw [if_neg hy, Bool.eq_false_iff.mpr hy]
  by_cases hx : x.isZero = true
  · rw [if_pos hx, hx]
    exact .dropRight (callees_of_isZero hx)
  · rw [if_neg hx, Bool.eq_false_iff.mpr hx]
    exact .refl _

/-- A quotient of zero drops the divisor. -/
theorem quotient_callees :
    KeepsCalls (absorbs .slash x y) (x.callees ++ y.callees)
      ((algebraic? .slash x y type).getD (.binary .slash x y type)).callees := by
  rw [absorbs, algebraic?]
  by_cases hy : y.isOne = true
  · rw [if_pos hy, hy]
    exact .left (callees_of_isOne hy)
  rw [if_neg hy, Bool.eq_false_iff.mpr hy]
  by_cases hx : x.isZero = true
  · rw [if_pos hx, hx]
    exact .dropRight (callees_of_isZero hx)
  · rw [if_neg hx, Bool.eq_false_iff.mpr hx]
    exact .refl _

/-- A power of one drops the exponent, and a zeroth power the base. -/
theorem power_callees :
    KeepsCalls (absorbs .power x y) (x.callees ++ y.callees)
      ((algebraic? .power x y type).getD (.binary .power x y type)).callees := by
  rw [absorbs, algebraic?]
  by_cases hy : y.isOne = true
  · rw [if_pos hy, hy]
    exact .left (callees_of_isOne hy)
  rw [if_neg hy, Bool.eq_false_iff.mpr hy]
  by_cases hx : x.isOne = true
  · have hcalls := callees_of_isOne hx
    rw [if_pos hx, hx, makesCall_eq_false_iff.mpr hcalls, Bool.and_false, Bool.or_false]
    exact .dropRight hcalls
  rw [if_neg hx, Bool.eq_false_iff.mpr hx]
  by_cases hy : y.isZero = true
  · have hone : (oneOf type).callees = [] := by
      rw [oneOf]
      split <;> rfl
    have hdropped : KeepsCalls x.makesCall (x.callees ++ y.callees) y.callees :=
      .dropLeft (callees_of_isZero hy)
    rw [callees_of_isZero hy, ← hone] at hdropped
    rw [if_pos hy, hy, callees_of_isZero hy, ← hone]
    exact hdropped
  · rw [if_neg hy, Bool.eq_false_iff.mpr hy]
    exact .refl _

theorem algebraic?_callees :
    KeepsCalls (absorbs op x y) (x.callees ++ y.callees)
      ((algebraic? op x y type).getD (.binary op x y type)).callees := by
  by_cases hstar : op = .star
  · rw [hstar]
    exact product_callees
  by_cases hslash : op = .slash
  · rw [hslash]
    exact quotient_callees
  by_cases hpower : op = .power
  · rw [hpower]
    exact power_callees
  have hlost : absorbs op x y = false := by
    unfold absorbs
    split <;> first | contradiction | rfl
  rw [hlost]
  cases hrule : algebraic? op x y type with
  | none => exact .refl _
  | some e =>
    cases algebraic?_identity hrule with
    | rightZero hop hy => exact .left (callees_of_isZero hy)
    | leftZero hx | opposite hx => exact .right (callees_of_isZero hx)
    | rightOne hop hy => exact .left (callees_of_isOne hy)
    | leftOne | rightNothing => exact absurd rfl hstar
    | leftNothing hop => exact (hop.elim hstar hslash).elim
    | powerOfOne | zeroPower => exact absurd rfl hpower

theorem simplifiedBinary_callees :
    KeepsCalls (absorbs op x y) (x.callees ++ y.callees) (simplifiedBinary op x y type).callees := by
  unfold simplifiedBinary
  split
  case h_1 hrule => exact logical?_callees hrule
  case h_2 =>
    split
    case isTrue hliterals =>
      rw [Bool.and_eq_true] at hliterals
      have hx := callees_of_isLiteral hliterals.1
      have hy := callees_of_isLiteral hliterals.2
      have hlost : absorbs op x y = false := by
        unfold absorbs
        simp only [makesCall_eq_false_iff.mpr hx, makesCall_eq_false_iff.mpr hy, Bool.and_false,
          Bool.or_false]
        split <;> rfl
      rw [hlost]
      cases hfold : Fold.binary op x y with
      | none => exact .refl _
      | some e =>
        have he := callees_of_isLiteral (Fold.binary_isLiteral hfold)
        rw [hx, hy, Option.getD_some, he]
        exact .refl _
    case isFalse => exact algebraic?_callees

theorem simplifiedUnary_callees : (simplifiedUnary op x type).callees = x.callees := by
  unfold simplifiedUnary
  cases hfold : Fold.unary op x with
  | none => rfl
  | some e =>
    have he := callees_of_isLiteral (Fold.unary_isLiteral hfold)
    rw [Option.getD_some, he]
    cases x with
    | int | float | string | bool => rfl
    | _ => cases hfold

end Operations

mutual

/-- Simplifying an expression without conditionals keeps its calls in their order, each of what is
called simplified as well. None is lost unless an operation drops an operand that makes a call. -/
theorem simplify_keepsCalls (e : Expr) (h : e.isStraight = true) :
    KeepsCalls e.absorbsCall (e.callees.map simplify) e.simplify.callees := by
  cases e with
  | conditional => cases h
  | binary op x y type =>
    rw [isStraight, Bool.and_eq_true] at h
    have hoperands := (simplify_keepsCalls x h.1).append (simplify_keepsCalls y h.2)
    rw [callees, List.map_append]
    exact hoperands.trans simplifiedBinary_callees
  | unary op x type =>
    rw [simplify, simplifiedUnary_callees]
    exact simplify_keepsCalls x h
  | call callee args type =>
    rw [isStraight, Bool.and_eq_true] at h
    have hparts := (simplify_keepsCalls callee h.1).append (simplifyAll_keepsCalls args h.2)
    have hcallee := (KeepsCalls.refl [callee.simplify]).append hparts
    rwa [← List.map_append] at hcallee
  | index object i type =>
    rw [isStraight, Bool.and_eq_true] at h
    have hparts := (simplify_keepsCalls object h.1).append (simplify_keepsCalls i h.2)
    rwa [← List.map_append] at hparts
  | member object field method type => exact simplify_keepsCalls object h
  | array elements type => exact simplifyAll_keepsCalls elements h
  | _ => exact .refl []

theorem simplifyAll_keepsCalls (es : List Expr) (h : isStraightAll es = true) :
    KeepsCalls (absorbsCallInAny es) ((calleesOfAll es).map simplify)
      (calleesOfAll (simplifyAll es)) := by
  cases es with
  | nil => exact .refl []
  | cons e rest =>
    rw [isStraightAll, Bool.and_eq_true] at h
    have hparts := (simplify_keepsCalls e h.1).append (simplifyAll_keepsCalls rest h.2)
    rwa [← List.map_append] at hparts

end

end Expr

/-- The expressions of a statement, without those of the statements in it. -/
def Stmt.exprs : Stmt → List Expr
  | .declare _ init => [init]
  | .assign target source => [target, source]
  | .bump _ target => [target]
  | .branch test _ _ | .shortBranch test _ | .loop test _ => [test]
  | .forEach _ collection _ => [collection]
  | .ret value => [value]
  | .print value => [value]
  | .call callee args type => [.call callee args type]
  | .missing | .missingCall | .function _ _ _ | .cls _ _ | .leave => []

mutual

/-- A statement and the statements in it, at any depth. -/
def Stmt.parts : Stmt → List Stmt
  | .function f params body => .function f params body :: Stmt.partsOfAll body
  | .cls c methods => .cls c methods :: MethodBody.partsOfAll methods
  | .branch test consequent alternate =>
    .branch test consequent alternate :: (Stmt.partsOfAll consequent ++ Stmt.partsOfAll alternate)
  | .shortBranch test consequent => .shortBranch test consequent :: Stmt.partsOfAll consequent
  | .loop test body => .loop test body :: Stmt.partsOfAll body
  | .forEach v collection body => .forEach v collection body :: Stmt.partsOfAll body
  | s => [s]

def MethodBody.parts : MethodBody → List Stmt
  | .mk _ _ body => Stmt.partsOfAll body

def Stmt.partsOfAll : List Stmt → List Stmt
  | [] => []
  | s :: rest => s.parts ++ Stmt.partsOfAll rest

def MethodBody.partsOfAll : List MethodBody → List Stmt
  | [] => []
  | m :: rest => m.parts ++ MethodBody.partsOfAll rest

end

theorem Stmt.partsOfAll_append (ss ts : List Stmt) :
    Stmt.partsOfAll (ss ++ ts) = Stmt.partsOfAll ss ++ Stmt.partsOfAll ts := by
  induction ss with
  | nil => rfl
  | cons s rest ih => rw [List.cons_append, Stmt.partsOfAll, Stmt.partsOfAll, ih, List.append_assoc]

theorem Stmt.partsOfAll_singleton (s : Stmt) : Stmt.partsOfAll [s] = s.parts := List.append_nil _

/-- Whether the statements `after` are among the statements `before`, in their order, each with its
expressions simplified. -/
def KeptFrom (before after : List Stmt) : Prop :=
  (after.map Stmt.exprs).Sublist (before.map fun s => s.exprs.map Expr.simplify)

namespace KeptFrom

variable {before before' after after' : List Stmt} {s t : Stmt}

theorem nil (before : List Stmt) : KeptFrom before [] := List.nil_sublist _

theorem append (h : KeptFrom before after) (h' : KeptFrom before' after') :
    KeptFrom (before ++ before') (after ++ after') := by
  rw [KeptFrom, List.map_append, List.map_append]
  exact List.Sublist.append h h'

theorem left (h : KeptFrom before after) : KeptFrom (before ++ before') after := by
  rw [KeptFrom, List.map_append]
  exact List.sublist_append_of_sublist_left h

theorem right (h : KeptFrom before after) : KeptFrom (before' ++ before) after := by
  rw [KeptFrom, List.map_append]
  exact List.sublist_append_of_sublist_right h

theorem cons (hexprs : t.exprs = s.exprs.map Expr.simplify) (h : KeptFrom before after) :
    KeptFrom (s :: before) (t :: after) := by
  rw [KeptFrom, List.map_cons, List.map_cons, hexprs]
  exact List.Sublist.cons_cons _ h

theorem skip (s : Stmt) (h : KeptFrom before after) : KeptFrom (s :: before) after :=
  List.Sublist.cons _ h

end KeptFrom

mutual

/-- The statements that a statement comes to are among those in it, with simplified expressions. -/
theorem Stmt.simplify_kept (s : Stmt) : KeptFrom s.parts (Stmt.partsOfAll s.simplify) := by
  cases s with
  | function f params body =>
    rw [Stmt.simplify, Stmt.partsOfAll_singleton]
    exact .cons rfl (Stmt.simplifyAll_kept body)
  | cls c methods =>
    rw [Stmt.simplify, Stmt.partsOfAll_singleton]
    exact .cons rfl (MethodBody.simplifyAll_kept methods)
  | assign target source =>
    rw [Stmt.simplify]
    split
    case isTrue => exact .nil _
    case isFalse => exact .cons rfl (.nil _)
  | branch test consequent alternate =>
    rw [Stmt.simplify]
    split
    case h_1 => exact .skip _ (.left (Stmt.simplifyAll_kept consequent))
    case h_2 => exact .skip _ (.right (Stmt.simplifyAll_kept alternate))
    case h_3 =>
      rw [Stmt.partsOfAll_singleton]
      exact .cons rfl (.append (Stmt.simplifyAll_kept consequent) (Stmt.simplifyAll_kept alternate))
  | shortBranch test consequent =>
    rw [Stmt.simplify]
    split
    case h_1 => exact .skip _ (Stmt.simplifyAll_kept consequent)
    case h_2 => exact .nil _
    case h_3 =>
      rw [Stmt.partsOfAll_singleton]
      exact .cons rfl (Stmt.simplifyAll_kept consequent)
  | loop test body =>
    rw [Stmt.simplify]
    split
    case h_1 => exact .nil _
    case h_2 =>
      rw [Stmt.partsOfAll_singleton]
      exact .cons rfl (Stmt.simplifyAll_kept body)
  | forEach v collection body =>
    rw [Stmt.simplify]
    split
    case h_1 => exact .nil _
    case h_2 =>
      rw [Stmt.partsOfAll_singleton]
      exact .cons rfl (Stmt.simplifyAll_kept body)
  | _ => exact .cons rfl (.nil _)

theorem MethodBody.simplify_kept (m : MethodBody) : KeptFrom m.parts m.simplify.parts := by
  cases m with
  | mk method params body => exact Stmt.simplifyAll_kept body

theorem Stmt.simplifyAll_kept (ss : List Stmt) :
    KeptFrom (Stmt.partsOfAll ss) (Stmt.partsOfAll (Stmt.simplifyAll ss)) := by
  cases ss with
  | nil => exact .nil _
  | cons s rest =>
    rw [Stmt.simplifyAll, Stmt.partsOfAll_append]
    exact .append (Stmt.simplify_kept s) (Stmt.simplifyAll_kept rest)

theorem MethodBody.simplifyAll_kept (ms : List MethodBody) :
    KeptFrom (MethodBody.partsOfAll ms) (MethodBody.partsOfAll (MethodBody.simplifyAll ms)) := by
  cases ms with
  | nil => exact .nil _
  | cons m rest => exact .append (MethodBody.simplify_kept m) (MethodBody.simplifyAll_kept rest)

end

/-- The statements that are left of a program, at any depth, are among its own, in their order and
with their expressions simplified. An expression without conditionals then calls what it called
before, simplified as well and in the same order, except for the calls in an operand that is dropped;
it calls all of it exactly if no operation in it drops an operand that makes a call. -/
theorem Program.simplify_callees (program : Program) :
    ((Stmt.partsOfAll program.simplify).map Stmt.exprs).Sublist
        ((Stmt.partsOfAll program).map fun s => s.exprs.map Expr.simplify) ∧
      ∀ e : Expr, e.isStraight = true →
        e.simplify.callees.Sublist (e.callees.map Expr.simplify) ∧
          (e.simplify.callees = e.callees.map Expr.simplify ↔ e.absorbsCall = false) := by
  refine ⟨Stmt.simplifyAll_kept program, fun e hstraight => ?_⟩
  have hkeeps := e.simplify_keepsCalls hstraight
  exact ⟨hkeeps.sublist, hkeeps.eq_iff⟩

section Examples

/-- A function without parameters that returns an integer. -/
private def pour : Expr := .function (some ⟨9, "pour", some ⟨[], .pump⟩, false⟩)

/-- `grind(pour() + 0) * 1`, where `grind` takes and returns an integer. -/
private def ground : Expr :=
  .binary .star
    (.call (.function (some ⟨10, "grind", some ⟨[.pump], .pump⟩, false⟩))
      [.binary .plus (.call pour [] .pump) (.int 0) .pump] .pump)
    (.int 1) .pump

theorem Program.simplify_callees_ground :
    ground.isStraight = true ∧ ground.absorbsCall = false ∧
      ground.simplify.callees = ground.callees.map Expr.simplify := by
  have hstraight : ground.isStraight = true := by decide
  have hkept : ground.absorbsCall = false := by decide
  have hcallees := (Program.simplify_callees [.print ground]).2 ground hstraight
  exact ⟨hstraight, hkept, hcallees.2.mpr hkept⟩

/-- A call is not made if its result is multiplied by zero. -/
theorem callees_simplify_zero_product :
    (Expr.binary .star (.call pour [] .pump) (.int 0) .pump).WellTyped [] ∧
      (Expr.binary .star (.call pour [] .pump) (.int 0) .pump).isStraight = true ∧
      (Expr.binary .star (.call pour [] .pump) (.int 0) .pump).callees = [pour] ∧
      (Expr.binary .star (.call pour [] .pump) (.int 0) .pump).simplify.callees = [] := by
  have hpour : pour.WellTyped [] := ⟨_, _, rfl, rfl, rfl⟩
  have hcall : (Expr.call pour [] .pump).WellTyped [] := ⟨hpour, trivial, [], rfl, .nil⟩
  have hrule : BinaryRule .star .pump .pump .pump := .arithmetic (.inr (.inl rfl)) rfl rfl
  exact ⟨⟨hcall, trivial, hrule⟩, rfl, rfl, rfl⟩

end Examples

end PeakLang.Typed
