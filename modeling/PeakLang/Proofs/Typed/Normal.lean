import PeakLang.Proofs.Typed.Check

namespace PeakLang.Typed

namespace Expr

/-- Whether an operand of `and` or `or` is the truth value that leaves the other operand. -/
def hasNeutral (op : TokenKind) (x y : Expr) : Bool :=
  match op with
  | .kwOr => x.isBool false || y.isBool false
  | .kwAnd => x.isBool true || y.isBool true
  | _ => false

/-- Whether an operand is a zero or a one that decides an operation or leaves the other operand. -/
def hasIdentity (op : TokenKind) (x y : Expr) : Bool :=
  match op with
  | .plus | .minus => x.isZero || y.isZero
  | .star => x.isZero || x.isOne || y.isZero || y.isOne
  | .slash => x.isZero || y.isOne
  | .power => x.isOne || y.isZero || y.isOne
  | _ => false

/-- Whether an operation can be replaced by something simpler. -/
def isReducible (op : TokenKind) (x y : Expr) : Bool :=
  hasNeutral op x y ||
    if x.isLiteral && y.isLiteral then (Fold.binary op x y).isSome else hasIdentity op x y

/-- Whether an expression is a truth value. -/
def isTruth : Expr → Bool
  | bool _ => true
  | _ => false

def isEmptyArray : Expr → Bool
  | emptyArray _ => true
  | _ => false

mutual

/-- Whether nothing in an expression can be simplified. -/
def isNormal : Expr → Bool
  | binary op x y _ => x.isNormal && y.isNormal && !isReducible op x y
  | unary op x _ => x.isNormal && (Fold.unary op x).isNone
  | conditional test consequent alternate _ =>
    test.isNormal && consequent.isNormal && alternate.isNormal && !test.isTruth
  | call callee args _ => callee.isNormal && areNormal args
  | index object i _ => object.isNormal && i.isNormal
  | member object _ _ _ => object.isNormal
  | array elements _ => areNormal elements
  | missing | int _ | float _ | string _ | bool _ | var _ | function _ | cls _ _ | self _
  | emptyArray _ => true

def areNormal : List Expr → Bool
  | [] => true
  | e :: rest => e.isNormal && areNormal rest

end

section Operations

variable {op : TokenKind} {x y e test consequent alternate : Expr} {type : Ty}

theorem isNormal_of_isLiteral (h : e.isLiteral = true) : e.isNormal = true := by
  cases e <;> first | rfl | cases h

theorem isLiteral_of_isZero (h : e.isZero = true) : e.isLiteral = true := by
  cases e <;> first | rfl | cases h

theorem logical?_eq_none_iff : logical? op x y = none ↔ hasNeutral op x y = false := by
  cases op with
  | kwOr => cases hx : x.isBool false <;> simp [logical?, hasNeutral, hx]
  | kwAnd => cases hx : x.isBool true <;> simp [logical?, hasNeutral, hx]
  | _ => simp [logical?, hasNeutral]

theorem algebraic?_eq_none_iff :
    algebraic? op x y type = none ↔ hasIdentity op x y = false := by
  cases op with
  | plus | minus =>
    cases hx : x.isZero <;> cases hy : y.isZero <;> simp [algebraic?, hasIdentity, hx, hy]
  | star =>
    cases hx : x.isZero <;> cases hy : y.isZero <;> cases hx' : x.isOne <;> cases hy' : y.isOne <;>
      simp [algebraic?, hasIdentity, hx, hy, hx', hy']
  | slash => cases hx : x.isZero <;> cases hy : y.isOne <;> simp [algebraic?, hasIdentity, hx, hy]
  | power =>
    cases hx : x.isOne <;> cases hy : y.isZero <;> cases hy' : y.isOne <;>
      simp [algebraic?, hasIdentity, hx, hy, hy']
  | _ => simp [algebraic?, hasIdentity]

/-- An operation that cannot be replaced stays. -/
theorem simplifiedBinary_of_not_isReducible (h : isReducible op x y = false) :
    simplifiedBinary op x y type = .binary op x y type := by
  rw [isReducible, Bool.or_eq_false_iff] at h
  rw [simplifiedBinary, logical?_eq_none_iff.mpr h.1]
  have hrest := h.2
  split at hrest
  case isTrue hliterals =>
    rw [Option.isSome_eq_false_iff, Option.isNone_iff_eq_none] at hrest
    simp only [hliterals, ↓reduceIte, hrest, Option.getD_none]
  case isFalse hliterals =>
    have hrule : algebraic? op x y type = none := algebraic?_eq_none_iff.mpr hrest
    simp only [hliterals, Bool.false_eq_true, ↓reduceIte, hrule, Option.getD_none]

theorem Identity.isNormal (hrule : Identity op x y type e) (hx : x.isNormal = true)
    (hy : y.isNormal = true) (hliterals : (x.isLiteral && y.isLiteral) = false) :
    e.isNormal = true := by
  cases hrule with
  | rightZero | rightOne | leftNothing | powerOfOne => exact hx
  | leftZero | leftOne | rightNothing => exact hy
  | opposite hzero =>
    -- The other operand is no constant, so its opposite does not fold.
    rw [isLiteral_of_isZero hzero, Bool.true_and] at hliterals
    have hfold : Fold.unary .minus y = none := by
      cases y with
      | int | float | string | bool => cases hliterals
      | _ => rfl
    simp only [Expr.isNormal, hy, hfold, Option.isNone_none, Bool.and_self]
  | zeroPower =>
    unfold oneOf
    split <;> rfl

theorem simplifiedBinary_isNormal (hx : x.isNormal = true) (hy : y.isNormal = true) :
    (simplifiedBinary op x y type).isNormal = true := by
  cases hred : isReducible op x y with
  | false =>
    rw [simplifiedBinary_of_not_isReducible hred]
    simp only [isNormal, hx, hy, hred, Bool.not_false, Bool.and_self]
  | true =>
    unfold simplifiedBinary
    split
    case h_1 hlogical =>
      rcases logical?_cases hlogical with rfl | rfl
      · exact hx
      · exact hy
    case h_2 hlogical =>
      rw [isReducible, logical?_eq_none_iff.mp hlogical, Bool.false_or] at hred
      split at hred
      case isTrue hliterals =>
        obtain ⟨e, hfold⟩ := Option.isSome_iff_exists.mp hred
        rw [if_pos hliterals, hfold, Option.getD_some]
        exact isNormal_of_isLiteral (Fold.binary_isLiteral hfold)
      case isFalse hliterals =>
        rw [if_neg hliterals]
        cases hrule : algebraic? op x y type with
        | none =>
          rw [algebraic?_eq_none_iff.mp hrule] at hred
          cases hred
        | some e =>
          exact (algebraic?_identity hrule).isNormal hx hy (Bool.eq_false_iff.mpr hliterals)

theorem simplifiedUnary_isNormal (hx : x.isNormal = true) :
    (simplifiedUnary op x type).isNormal = true := by
  unfold simplifiedUnary
  cases hfold : Fold.unary op x with
  | none => simp only [Option.getD_none, isNormal, hx, hfold, Option.isNone_none, Bool.and_self]
  | some e => exact isNormal_of_isLiteral (Fold.unary_isLiteral hfold)

theorem simplifiedConditional_of_not_isTruth (h : test.isTruth = false) :
    simplifiedConditional test consequent alternate type =
      .conditional test consequent alternate type := by
  cases test with
  | bool => cases h
  | _ => rfl

theorem simplifiedConditional_isNormal (htest : test.isNormal = true)
    (hconsequent : consequent.isNormal = true) (halternate : alternate.isNormal = true) :
    (simplifiedConditional test consequent alternate type).isNormal = true := by
  cases htruth : test.isTruth with
  | false =>
    rw [simplifiedConditional_of_not_isTruth htruth]
    simp only [isNormal, htest, hconsequent, halternate, htruth, Bool.not_false, Bool.and_self]
  | true =>
    cases test with
    | bool b =>
      cases b with
      | true => exact hconsequent
      | false => exact halternate
    | _ => cases htruth

end Operations

mutual

theorem simplify_isNormal (e : Expr) : e.simplify.isNormal = true := by
  cases e with
  | binary op x y type => exact simplifiedBinary_isNormal (simplify_isNormal x) (simplify_isNormal y)
  | unary op x type => exact simplifiedUnary_isNormal (simplify_isNormal x)
  | conditional test consequent alternate type =>
    exact simplifiedConditional_isNormal (simplify_isNormal test) (simplify_isNormal consequent)
      (simplify_isNormal alternate)
  | call callee args type =>
    rw [simplify, isNormal, simplify_isNormal callee, simplifyAll_areNormal args, Bool.and_self]
  | index object i type =>
    rw [simplify, isNormal, simplify_isNormal object, simplify_isNormal i, Bool.and_self]
  | member object field method type => exact simplify_isNormal object
  | array elements type => exact simplifyAll_areNormal elements
  | missing | int | float | string | bool | var | function | cls | self | emptyArray => rfl

theorem simplifyAll_areNormal (es : List Expr) : areNormal (simplifyAll es) = true := by
  cases es with
  | nil => rfl
  | cons e rest =>
    rw [simplifyAll, areNormal, simplify_isNormal e, simplifyAll_areNormal rest, Bool.and_self]

end

mutual

theorem simplify_of_isNormal (e : Expr) (h : e.isNormal = true) : e.simplify = e := by
  cases e with
  | binary op x y type =>
    simp only [isNormal, Bool.and_eq_true, Bool.not_eq_true'] at h
    obtain ⟨⟨hx, hy⟩, hred⟩ := h
    rw [simplify, simplify_of_isNormal x hx, simplify_of_isNormal y hy,
      simplifiedBinary_of_not_isReducible hred]
  | unary op x type =>
    rw [isNormal, Bool.and_eq_true, Option.isNone_iff_eq_none] at h
    rw [simplify, simplify_of_isNormal x h.1, simplifiedUnary, h.2, Option.getD_none]
  | conditional test consequent alternate type =>
    simp only [isNormal, Bool.and_eq_true, Bool.not_eq_true'] at h
    obtain ⟨⟨⟨htest, hconsequent⟩, halternate⟩, htruth⟩ := h
    rw [simplify, simplify_of_isNormal test htest, simplify_of_isNormal consequent hconsequent,
      simplify_of_isNormal alternate halternate, simplifiedConditional_of_not_isTruth htruth]
  | call callee args type =>
    rw [isNormal, Bool.and_eq_true] at h
    rw [simplify, simplify_of_isNormal callee h.1, simplifyAll_of_areNormal args h.2]
  | index object i type =>
    rw [isNormal, Bool.and_eq_true] at h
    rw [simplify, simplify_of_isNormal object h.1, simplify_of_isNormal i h.2]
  | member object field method type => rw [simplify, simplify_of_isNormal object h]
  | array elements type => rw [simplify, simplifyAll_of_areNormal elements h]
  | missing | int | float | string | bool | var | function | cls | self | emptyArray => rfl

theorem simplifyAll_of_areNormal (es : List Expr) (h : areNormal es = true) :
    simplifyAll es = es := by
  cases es with
  | nil => rfl
  | cons e rest =>
    rw [areNormal, Bool.and_eq_true] at h
    rw [simplifyAll, simplify_of_isNormal e h.1, simplifyAll_of_areNormal rest h.2]

end

end Expr

mutual

/-- Whether nothing in a statement can be simplified. -/
def Stmt.isNormal : Stmt → Bool
  | .declare _ e | .bump _ e | .ret e | .print e => e.isNormal
  | .function _ _ body => Stmt.areNormal body
  | .cls _ methods => MethodBody.areNormal methods
  | .assign target source => target.isNormal && source.isNormal && !target.sameEntity source
  | .branch test consequent alternate =>
    test.isNormal && Stmt.areNormal consequent && Stmt.areNormal alternate && !test.isTruth
  | .shortBranch test consequent => test.isNormal && Stmt.areNormal consequent && !test.isTruth
  | .loop test body => test.isNormal && Stmt.areNormal body && !test.isBool false
  | .forEach _ collection body =>
    collection.isNormal && Stmt.areNormal body && !collection.isEmptyArray
  | .call callee args _ => callee.isNormal && Expr.areNormal args
  | .missing | .leave | .missingCall => true

def MethodBody.isNormal : MethodBody → Bool
  | .mk _ _ body => Stmt.areNormal body

/-- Whether nothing in several statements can be simplified. -/
def Stmt.areNormal : List Stmt → Bool
  | [] => true
  | s :: rest => s.isNormal && Stmt.areNormal rest

def MethodBody.areNormal : List MethodBody → Bool
  | [] => true
  | m :: rest => m.isNormal && MethodBody.areNormal rest

end

theorem Stmt.areNormal_append (ss ts : List Stmt) :
    Stmt.areNormal (ss ++ ts) = (Stmt.areNormal ss && Stmt.areNormal ts) := by
  induction ss with
  | nil => rfl
  | cons s rest ih => rw [List.cons_append, Stmt.areNormal, Stmt.areNormal, ih, Bool.and_assoc]

theorem Stmt.areNormal_singleton (s : Stmt) : Stmt.areNormal [s] = s.isNormal := Bool.and_true _

mutual

theorem Stmt.simplify_areNormal (s : Stmt) : Stmt.areNormal s.simplify = true := by
  cases s with
  | declare v e | bump op e | ret e | print e =>
    rw [Stmt.simplify, Stmt.areNormal_singleton, Stmt.isNormal, e.simplify_isNormal]
  | function f params body =>
    rw [Stmt.simplify, Stmt.areNormal_singleton, Stmt.isNormal, Stmt.simplifyAll_areNormal body]
  | cls c methods =>
    rw [Stmt.simplify, Stmt.areNormal_singleton, Stmt.isNormal,
      MethodBody.simplifyAll_areNormal methods]
  | assign target source =>
    rw [Stmt.simplify]
    split
    case isTrue => rfl
    case isFalse hsame =>
      rw [Stmt.areNormal_singleton, Stmt.isNormal, target.simplify_isNormal,
        source.simplify_isNormal, Bool.eq_false_iff.mpr hsame]
      rfl
  | branch test consequent alternate =>
    rw [Stmt.simplify]
    have htest := test.simplify_isNormal
    have hconsequent := Stmt.simplifyAll_areNormal consequent
    have halternate := Stmt.simplifyAll_areNormal alternate
    generalize test.simplify = t at htest ⊢
    cases t with
    | bool b =>
      cases b with
      | true => exact hconsequent
      | false => exact halternate
    | _ =>
      rw [Stmt.areNormal_singleton, Stmt.isNormal, htest, hconsequent, halternate]
      rfl
  | shortBranch test consequent =>
    rw [Stmt.simplify]
    have htest := test.simplify_isNormal
    have hconsequent := Stmt.simplifyAll_areNormal consequent
    generalize test.simplify = t at htest ⊢
    cases t with
    | bool b =>
      cases b with
      | true => exact hconsequent
      | false => rfl
    | _ =>
      rw [Stmt.areNormal_singleton, Stmt.isNormal, htest, hconsequent]
      rfl
  | loop test body =>
    rw [Stmt.simplify]
    have htest := test.simplify_isNormal
    have hbody := Stmt.simplifyAll_areNormal body
    generalize test.simplify = t at htest ⊢
    cases t with
    | bool b =>
      cases b with
      | true =>
        rw [Stmt.areNormal_singleton, Stmt.isNormal, htest, hbody]
        rfl
      | false => rfl
    | _ =>
      rw [Stmt.areNormal_singleton, Stmt.isNormal, htest, hbody]
      rfl
  | forEach v collection body =>
    rw [Stmt.simplify]
    have hcollection := collection.simplify_isNormal
    have hbody := Stmt.simplifyAll_areNormal body
    generalize collection.simplify = c at hcollection ⊢
    cases c with
    | emptyArray => rfl
    | _ =>
      rw [Stmt.areNormal_singleton, Stmt.isNormal, hcollection, hbody]
      rfl
  | call callee args type =>
    rw [Stmt.simplify, Stmt.areNormal_singleton, Stmt.isNormal, callee.simplify_isNormal,
      Expr.simplifyAll_areNormal args, Bool.and_self]
  | missing | leave | missingCall => rfl

theorem MethodBody.simplify_isNormal (m : MethodBody) : m.simplify.isNormal = true := by
  obtain ⟨method, params, body⟩ := m
  exact Stmt.simplifyAll_areNormal body

theorem Stmt.simplifyAll_areNormal (ss : List Stmt) : Stmt.areNormal (Stmt.simplifyAll ss) = true := by
  cases ss with
  | nil => rfl
  | cons s rest =>
    rw [Stmt.simplifyAll, Stmt.areNormal_append, Stmt.simplify_areNormal s,
      Stmt.simplifyAll_areNormal rest, Bool.and_self]

theorem MethodBody.simplifyAll_areNormal (ms : List MethodBody) :
    MethodBody.areNormal (MethodBody.simplifyAll ms) = true := by
  cases ms with
  | nil => rfl
  | cons m rest =>
    rw [MethodBody.simplifyAll, MethodBody.areNormal, MethodBody.simplify_isNormal m,
      MethodBody.simplifyAll_areNormal rest, Bool.and_self]

end

mutual

theorem Stmt.simplify_of_isNormal (s : Stmt) (h : s.isNormal = true) : s.simplify = [s] := by
  cases s with
  | declare v e | bump op e | ret e | print e => rw [Stmt.simplify, e.simplify_of_isNormal h]
  | function f params body => rw [Stmt.simplify, Stmt.simplifyAll_of_areNormal body h]
  | cls c methods => rw [Stmt.simplify, MethodBody.simplifyAll_of_areNormal methods h]
  | assign target source =>
    simp only [Stmt.isNormal, Bool.and_eq_true, Bool.not_eq_true'] at h
    obtain ⟨⟨htarget, hsource⟩, hsame⟩ := h
    rw [Stmt.simplify, target.simplify_of_isNormal htarget, source.simplify_of_isNormal hsource,
      hsame, if_neg Bool.false_ne_true]
  | branch test consequent alternate =>
    simp only [Stmt.isNormal, Bool.and_eq_true, Bool.not_eq_true'] at h
    obtain ⟨⟨⟨htest, hconsequent⟩, halternate⟩, htruth⟩ := h
    rw [Stmt.simplify, test.simplify_of_isNormal htest, Stmt.simplifyAll_of_areNormal _ hconsequent,
      Stmt.simplifyAll_of_areNormal _ halternate]
    cases test with
    | bool => cases htruth
    | _ => rfl
  | shortBranch test consequent =>
    simp only [Stmt.isNormal, Bool.and_eq_true, Bool.not_eq_true'] at h
    obtain ⟨⟨htest, hconsequent⟩, htruth⟩ := h
    rw [Stmt.simplify, test.simplify_of_isNormal htest, Stmt.simplifyAll_of_areNormal _ hconsequent]
    cases test with
    | bool => cases htruth
    | _ => rfl
  | loop test body =>
    simp only [Stmt.isNormal, Bool.and_eq_true, Bool.not_eq_true'] at h
    obtain ⟨⟨htest, hbody⟩, hfalse⟩ := h
    rw [Stmt.simplify, test.simplify_of_isNormal htest, Stmt.simplifyAll_of_areNormal _ hbody]
    cases test with
    | bool b =>
      cases b with
      | true => rfl
      | false => cases hfalse
    | _ => rfl
  | forEach v collection body =>
    simp only [Stmt.isNormal, Bool.and_eq_true, Bool.not_eq_true'] at h
    obtain ⟨⟨hcollection, hbody⟩, hempty⟩ := h
    rw [Stmt.simplify, collection.simplify_of_isNormal hcollection,
      Stmt.simplifyAll_of_areNormal _ hbody]
    cases collection with
    | emptyArray => cases hempty
    | _ => rfl
  | call callee args type =>
    rw [Stmt.isNormal, Bool.and_eq_true] at h
    rw [Stmt.simplify, callee.simplify_of_isNormal h.1, Expr.simplifyAll_of_areNormal args h.2]
  | missing | leave | missingCall => rfl

theorem MethodBody.simplify_of_isNormal (m : MethodBody) (h : m.isNormal = true) : m.simplify = m := by
  obtain ⟨method, params, body⟩ := m
  rw [MethodBody.simplify, Stmt.simplifyAll_of_areNormal body h]

theorem Stmt.simplifyAll_of_areNormal (ss : List Stmt) (h : Stmt.areNormal ss = true) :
    Stmt.simplifyAll ss = ss := by
  cases ss with
  | nil => rfl
  | cons s rest =>
    rw [Stmt.areNormal, Bool.and_eq_true] at h
    rw [Stmt.simplifyAll, Stmt.simplify_of_isNormal s h.1, Stmt.simplifyAll_of_areNormal rest h.2,
      List.singleton_append]

theorem MethodBody.simplifyAll_of_areNormal (ms : List MethodBody)
    (h : MethodBody.areNormal ms = true) : MethodBody.simplifyAll ms = ms := by
  cases ms with
  | nil => rfl
  | cons m rest =>
    rw [MethodBody.areNormal, Bool.and_eq_true] at h
    rw [MethodBody.simplifyAll, MethodBody.simplify_of_isNormal m h.1,
      MethodBody.simplifyAll_of_areNormal rest h.2]

end

namespace Program

/-- Whether nothing in a program can be simplified. -/
def isNormal (program : Program) : Bool := Stmt.areNormal program

/-- Simplifying a program once is enough: what it leads to is left as it is. The programs that are left
as they are, are those in which nothing can be simplified. -/
theorem simplify_simplify (program : Program) :
    simplify (simplify program) = simplify program ∧
      (simplify program = program ↔ isNormal program = true) := by
  have hnormal : isNormal (simplify program) = true := Stmt.simplifyAll_areNormal program
  refine ⟨Stmt.simplifyAll_of_areNormal _ hnormal, ?_, Stmt.simplifyAll_of_areNormal program⟩
  intro h
  rw [← h]
  exact hnormal

end Program

end PeakLang.Typed
