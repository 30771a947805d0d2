import PeakLang.Proofs.Js.Given
import PeakLang.Proofs.Js.Identifier
import PeakLang.Proofs.Tree.Same

namespace PeakLang.Js

open Typed (Binder)

section Translation

/-- The parse trees of what is built in. -/
def builtinNodes : List (Text × Node) :=
  [("π", .member (.name "Math") "PI"),
   ("sqrt", .member (.name "Math") "sqrt"),
   ("sin", .member (.name "Math") "sin"),
   ("cos", .member (.name "Math") "cos"),
   ("exp", .member (.name "Math") "exp"),
   ("ln", .member (.name "Math") "log"),
   ("hypot", .member (.name "Math") "hypot"),
   ("bytes", .arrow "s"
     (.array [.spread (.call (.member (.new (.name "TextEncoder") []) "encode") [.name "s"])])),
   ("codepoints", .arrow "s"
     (.call (.member (.array [.spread (.name "s")]) "map")
       [.arrow "c" (.call (.member (.name "c") "codePointAt") [.number 0])]))]

/-- The parse tree of a built-in name. -/
def builtinNode (name : Text) : Node := (builtinNodes.lookup name).getD (.name name)

/-- The parse tree of an integer: a negative one has a sign. -/
def integerNode : Int → Node
  | .ofNat n => .number n
  | .negSucc n => .unary .minus (.number (n + 1))

def operatorOf : TokenKind → Operator
  | .kwAnd => .and
  | .eq => .eq
  | .neq => .ne
  | .lt => .lt
  | .gt => .gt
  | .leq => .le
  | .geq => .ge
  | .plus => .add
  | .minus => .sub
  | .star => .mul
  | .slash => .div
  | .percent => .rem
  | .power => .pow
  | _ => .or

/-- The parse tree of a reference to a variable. -/
def variableNode (names : Names) (v : Variable) : Node :=
  if v.builtin then builtinNode v.name else .name (nameIn names (.var v.id))

/-- The parse tree of a reference to a function. -/
def functionNode (names : Names) (f : Function) : Node :=
  if f.builtin then builtinNode f.name else .name (nameIn names (.function f.id))

def methodIn (names : Names) (m : Option PeakLang.Method) : Text :=
  (m.map fun m => nameIn names (.method m.owner m.place)).getD []

/-- The parse tree of a reference to a class. -/
def classNode (names : Names) (c : Option ClassRef) : Node :=
  .name ((c.map fun c => nameIn names (.cls c.id)).getD [])

mutual

/-- The parse tree that an expression is translated to. An integer quotient is cut, a method that is
not called is bound to its object, and a class that is called makes an object. -/
def translate (names : Names) : Typed.Expr → Node
  | .missing => .name "undefined"
  | .int value => integerNode value.toInt
  | .float value => .float value
  | .string value => .string value
  | .bool value => .bool value
  | .var v => (v.map (variableNode names)).getD (.name [])
  | .function f => (f.map (functionNode names)).getD (.name [])
  | .cls c _ => classNode names c
  | .self _ => .this
  | .unary op operand _ => .unary (if op == .kwNot then .not else .minus) (translate names operand)
  | .binary op left right type =>
    let whole := Node.binary (operatorOf op) (translate names left) (translate names right)
    if op == .slash && type.isPrim .pump then .call (.member (.name "Math") "trunc") [whole]
    else whole
  | .conditional test consequent alternate _ =>
    .conditional (translate names test) (translate names consequent) (translate names alternate)
  | .call (.cls c _) args _ => .new (classNode names c) (translateAll names args)
  | .call (.member object _ (some m) _) args _ =>
    .call (.member (translate names object) (methodIn names (some m))) (translateAll names args)
  | .call callee args _ => .call (translate names callee) (translateAll names args)
  | .index object i _ => .index (translate names object) (translate names i)
  | .member object (some f) _ _ =>
    .member (translate names object) (nameIn names (.field f.owner f.place))
  | .member object none m _ =>
    .call (.member (.member (translate names object) (methodIn names m)) "bind")
      [translate names object]
  | .array elements _ => .array (translateAll names elements)
  | .emptyArray _ => .array []

def translateAll (names : Names) : List Typed.Expr → List Node
  | [] => []
  | e :: rest => translate names e :: translateAll names rest

end

/-- What an expression itself, without its parts, asks a name for. -/
def keys : Typed.Expr → List EntityKey
  | .var (some v) => if v.builtin then [] else [.var v.id]
  | .function (some f) => if f.builtin then [] else [.function f.id]
  | .cls (some c) _ => [.cls c.id]
  | .member _ f m _ =>
    (f.toList.map fun f => .field f.owner f.place) ++ m.toList.map fun m => .method m.owner m.place
  | _ => []

/-- Whether an expression is a floating-point constant. -/
def isFloat : Typed.Expr → Bool
  | .float _ => true
  | _ => false

end Translation

section Builtins

theorem isIdentifier_of_decide {n : Text} (h : (n.all isWordByte && word? n == some (.name n)) = true) :
    IsIdentifier n := by
  rw [Bool.and_eq_true, List.all_eq_true, beq_iff_eq] at h
  exact ⟨h.1, h.2⟩

theorem math_written {n : Text} (h : IsIdentifier n) :
    Written true .called ("Math" ++ "." ++ n) (.member (.name "Math") n) := by
  have hmath : IsIdentifier "Math" := isIdentifier_of_decide (by decide)
  exact (Written.name hmath).operand.member h

/-- A call with one argument. -/
theorem calledWith {text text' : Text} {x y : Node} (h : Written true .called text x)
    (hy : Written false .expression text' y) :
    Written true .called (text ++ "(" ++ Text.join ", " [text'] ++ ")") (.call x [y]) :=
  h.unpointed.call (.items (.inr rfl) (.cons hy.item .nil))

theorem bytes_written :
    Written true .called "((s) => [...new TextEncoder().encode(s)])" (builtinNode "bytes") := by
  have hs : IsIdentifier "s" := isIdentifier_of_decide (by decide)
  have hencoder : IsIdentifier "TextEncoder" := isIdentifier_of_decide (by decide)
  have hencode : IsIdentifier "encode" := isIdentifier_of_decide (by decide)
  have hnew := (Written.name hencoder).accessed.unpointed.new (Written.items (.inl rfl) .nil)
  have hcall := calledWith (hnew.called.member hencode) (Written.name hs).operand.plain
  have hspread := hcall.plain.spread ⟨110, rfl, by decide⟩
  have harray := (Written.items (.inl rfl) (.cons hspread .nil)).array
  exact (harray.operand.plain.arrow hs).paren.operand

theorem codepoints_written :
    Written true .called "((s) => [...s].map((c) => c.codePointAt(0)))"
      (builtinNode "codepoints") := by
  have hs : IsIdentifier "s" := isIdentifier_of_decide (by decide)
  have hc : IsIdentifier "c" := isIdentifier_of_decide (by decide)
  have hmap : IsIdentifier "map" := isIdentifier_of_decide (by decide)
  have hcode : IsIdentifier "codePointAt" := isIdentifier_of_decide (by decide)
  have hspread := (Written.name hs).operand.plain.spread ⟨115, rfl, by decide⟩
  have harray := (Written.items (.inl rfl) (.cons hspread .nil)).array
  have hzero := (Written.number 0).operand.signed.expression
  have hpoint := calledWith ((Written.name hc).operand.member hcode) hzero
  have hcall := calledWith (harray.operand.member hmap) (hpoint.plain.arrow hc)
  exact (hcall.plain.arrow hs).paren.operand

/-- What is built in is written as its parse tree. -/
theorem builtin_written : ∀ e ∈ Entity.builtinValues,
    Written true .called ((builtins.lookup e.name).getD []) (builtinNode e.name) := by
  intro e he
  simp only [Entity.builtinValues, Entity.builtin, List.mem_cons, List.not_mem_nil, or_false] at he
  obtain rfl | rfl | rfl | rfl | rfl | rfl | rfl | rfl | rfl := he
  iterate 7 exact math_written (isIdentifier_of_decide (by decide))
  · exact bytes_written
  · exact codepoints_written

end Builtins

section Names

variable {spell : EntityKey → Text} {env : List Binder}

/-- An entity that was asked for has a name. -/
theorem Names.lookup_requestAll (names : Names) {requests : List Request} {r : Request}
    (h : r ∈ requests) :
    ∃ n, (names.requestAll requests).lookup r.1 = some n := by
  induction requests generalizing names with
  | nil => cases h
  | cons s rest ih =>
    rcases List.mem_cons.mp h with rfl | h
    · exact ⟨_, extends_requestAll _ rest _ _ (lookup_request names r.1 r.2)⟩
    · exact ih _ h

mutual

/-- What an expression asks for, one of its parts asks for itself. -/
theorem forall_asked {P : EntityKey → Prop} (x : Typed.Expr) (h : ∀ z ∈ x.parts, ∀ key ∈ keys z, P key) :
    ∀ r ∈ askExpr x, P r.1 := by
  cases x with
  | missing | int | float | string | bool | self | emptyArray => exact List.forall_mem_nil _
  | var v =>
    have hkeys := h _ List.mem_cons_self
    cases v with
    | none => exact List.forall_mem_nil _
    | some v =>
      rw [askExpr, askVar]
      rw [keys] at hkeys
      split at hkeys <;> simp_all
  | function f =>
    have hkeys := h _ List.mem_cons_self
    cases f with
    | none => exact List.forall_mem_nil _
    | some f =>
      rw [askExpr, askFunction]
      rw [keys] at hkeys
      split at hkeys <;> simp_all
  | cls c type =>
    cases c with
    | none => exact List.forall_mem_nil _
    | some c => exact List.forall_mem_singleton.mpr (h _ List.mem_cons_self _ List.mem_cons_self)
  | unary op operand type => exact forall_asked operand (List.forall_mem_cons.mp h).2
  | binary op left right type | index left right type =>
    obtain ⟨hleft, hright⟩ := List.forall_mem_append.mp (List.forall_mem_cons.mp h).2
    exact List.forall_mem_append.mpr ⟨forall_asked left hleft, forall_asked right hright⟩
  | conditional test consequent alternate type =>
    obtain ⟨htest, hrest⟩ := List.forall_mem_append.mp (List.forall_mem_cons.mp h).2
    obtain ⟨hconsequent, halternate⟩ := List.forall_mem_append.mp hrest
    exact List.forall_mem_append.mpr ⟨forall_asked test htest, List.forall_mem_append.mpr
      ⟨forall_asked consequent hconsequent, forall_asked alternate halternate⟩⟩
  | call callee args type =>
    obtain ⟨hcallee, hargs⟩ := List.forall_mem_append.mp (List.forall_mem_cons.mp h).2
    have hargs := forall_askedAll args hargs
    have hasked := forall_asked callee hcallee
    cases callee with
    | member object field method type =>
      cases method with
      | some m =>
        obtain ⟨hself, hobject⟩ := List.forall_mem_cons.mp hcallee
        have hmethod := hself _ (List.mem_append_right _ List.mem_cons_self)
        exact List.forall_mem_append.mpr ⟨hargs, List.forall_mem_append.mpr
          ⟨forall_asked object hobject, List.forall_mem_singleton.mpr hmethod⟩⟩
      | none => exact List.forall_mem_append.mpr ⟨hargs, hasked⟩
    | _ => exact List.forall_mem_append.mpr ⟨hargs, hasked⟩
  | member object field method type =>
    obtain ⟨hself, hobject⟩ := List.forall_mem_cons.mp h
    have hobject := forall_asked object hobject
    cases field with
    | some f =>
      exact List.forall_mem_append.mpr
        ⟨hobject, List.forall_mem_singleton.mpr (hself _ List.mem_cons_self)⟩
    | none =>
      cases method with
      | none => exact List.forall_mem_append.mpr ⟨hobject, List.forall_mem_nil _⟩
      | some m =>
        exact List.forall_mem_append.mpr
          ⟨hobject, List.forall_mem_singleton.mpr (hself _ List.mem_cons_self)⟩
  | array elements type => exact forall_askedAll elements (List.forall_mem_cons.mp h).2

theorem forall_askedAll {P : EntityKey → Prop} (xs : List Typed.Expr)
    (h : ∀ z ∈ Typed.Expr.partsOfAll xs, ∀ key ∈ keys z, P key) : ∀ r ∈ askExprs xs, P r.1 := by
  cases xs with
  | nil => exact List.forall_mem_nil _
  | cons x rest =>
    obtain ⟨hx, hrest⟩ := List.forall_mem_append.mp h
    exact List.forall_mem_append.mpr ⟨forall_asked x hx, forall_askedAll rest hrest⟩

end

theorem builtin_written_of_mem {e : Entity} (he : e ∈ Entity.builtins)
    (hvalue : ∀ n t, e ≠ .type n t) :
    Written true .called (builtin e.name).text (builtinNode e.name) := by
  rw [Entity.builtins, List.mem_append] at he
  refine builtin_written e (he.resolve_left fun htype => ?_)
  obtain ⟨p, -, hp⟩ := List.mem_map.mp htype
  exact hvalue _ _ hp.symm

/-- A reference to a variable or a function, by what is built in for it or by its name. -/
theorem reference_written {e : Entity} {b : Binder} {key : EntityKey} {source : Text}
    (hvalue : ∀ n t, e ≠ .type n t) (hflag : e.isBuiltin = b.builtin)
    (hown : ∀ b ∈ env, b.builtin = false) (hbound : e ∈ Entity.builtins ∨ b ∈ env)
    (hspell : ∀ r ∈ if b.builtin then [] else [(key, source)], IsIdentifier (spell r.1)) :
    Written true .called (if b.builtin then builtin e.name else .name (spell key)).text
      (if b.builtin then builtinNode e.name else .name (spell key)) := by
  obtain hbuiltin | hbound := hbound
  · have hb : b.builtin = true := hflag ▸ Entity.builtin_of_mem e hbuiltin
    rw [hb, if_pos rfl, if_pos rfl]
    exact builtin_written_of_mem hbuiltin hvalue
  · rw [hown b hbound, if_neg Bool.false_ne_true] at hspell ⊢
    exact (Written.name (hspell _ List.mem_cons_self)).operand

end Names

section Expressions

variable {final : Names} {env : List Binder} {classes : List Class}

/-- How the text of an expression may be used: as an operand with a sign, without parentheses before a
power if it starts with no sign, and as an object if its value can be one. -/
structure Stands (x : Typed.Expr) (text : Text) (r : Node) : Prop where
  signed : Written false .signed text r
  called : startsWithSign x = false → Written false .called text r
  object : (∀ p, x.type ≠ .prim p) → Written true .called text r

theorem Stands.of_called {x : Typed.Expr} {text : Text} {r : Node} (h : Written true .called text r) :
    Stands x text r :=
  ⟨h.unpointed.signed, fun _ => h.unpointed, fun _ => h⟩

theorem Stands.expression {x : Typed.Expr} {text : Text} {r : Node} (h : Stands x text r) :
    Written false .expression text r :=
  h.signed.expression

theorem int_stands (value : Int64) :
    Stands (.int value) (Expr.int value).text (integerNode value.toInt) := by
  have htext : (Expr.int value).text = Text.ofInt value.toInt := rfl
  have hsign : startsWithSign (.int value) = false → ¬ value.toInt < 0 := by
    intro hstarts hneg
    rw [startsWithSign, decide_eq_false_iff_not, Int64.lt_iff_toInt_lt] at hstarts
    exact hstarts hneg
  refine ⟨?_, fun hstarts => ?_, fun hprim => absurd rfl (hprim .pump)⟩
  · rw [htext]
    cases value.toInt with
    | ofNat n => exact (Written.number n).operand.signed
    | negSucc n => exact Written.negative (n + 1)
  · have hnonneg := hsign hstarts
    rw [htext]
    cases hvalue : value.toInt with
    | ofNat n => exact (Written.number n).operand
    | negSucc n => exact absurd (hvalue ▸ Int.negSucc_lt_zero n) hnonneg

variable {op : TokenKind}

theorem operator_mem {t u r : Ty} (h : Typed.BinaryRule op t u r) :
    (operator op, Token.op (operatorOf op)) ∈ marks := by
  cases h with
  | logical hop | equality hop => obtain rfl | rfl := hop <;> decide
  | order hop => obtain rfl | rfl | rfl | rfl := hop <;> decide
  | sum => decide
  | arithmetic hop => obtain rfl | rfl | rfl | rfl | rfl := hop <;> decide

theorem operatorOf_ne_pow (h : op ≠ .power) : operatorOf op ≠ .pow := by
  cases op <;> first | exact absurd rfl h | decide

/-- An operation without its parentheses. A left operand with a sign is put in parentheses before a
power. -/
theorem binary_written {left right : Typed.Expr} {l r : Expr} {x z : Node} {type : Ty}
    (hrule : Typed.BinaryRule op left.type right.type type) (hl : Stands left l.text x)
    (hr : Stands right r.text z) :
    Written false .expression
      (Expr.binary (operator op) (if op == .power && startsWithSign left then .paren l else l) r).text
      (.binary (operatorOf op) x z) := by
  by_cases hpower : op = .power
  · subst hpower
    refine Written.power ?_ hr.signed
    cases hsign : startsWithSign left with
    | true => exact hl.expression.paren.operand.unpointed
    | false => exact hl.called hsign
  · rw [beq_eq_false_iff_ne.mpr hpower, Bool.false_and, if_neg Bool.false_ne_true]
    exact Written.binary (operator_mem hrule) (operatorOf_ne_pow hpower) hl.signed hr.signed

/-- An operation is written in parentheses, or as a call where a quotient is cut. -/
theorem operation_written {left right : Typed.Expr} {l r : Expr} {x z : Node} {type : Ty}
    (hrule : Typed.BinaryRule op left.type right.type type) (hl : Stands left l.text x)
    (hr : Stands right r.text z) :
    Written true .called (operation op (startsWithSign left) l r type).text
      (if op == .slash && type.isPrim .pump then
        .call (.member (.name "Math") "trunc") [.binary (operatorOf op) x z]
      else .binary (operatorOf op) x z) := by
  have hwhole := (binary_written hrule hl hr).paren.operand
  unfold operation
  by_cases hcut : (op == .slash && type.isPrim .pump) = true
  · rw [if_pos hcut, if_pos hcut]
    have htrunc := math_written (isIdentifier_of_decide (n := "trunc") (by decide))
    exact calledWith htrunc hwhole.plain
  · rw [if_neg hcut, if_neg hcut]
    exact hwhole

theorem sign_mem {t r : Ty} (h : Typed.UnaryRule op t r) :
    ((if op == .kwNot then "!" else "-" : Text),
      (if op == .kwNot then Sign.not else .minus).token) ∈ marks := by
  cases h <;> decide

/-- What has a sign is a number or a truth value, and has no members. -/
theorem prim_of_unaryRule {t r : Ty} (h : Typed.UnaryRule op t r) :
    ∃ p, r = .prim p := by
  cases h with
  | not => exact ⟨.boolean, rfl⟩
  | neg hnumber =>
    obtain hpump | haffogato := Bool.or_eq_true_iff.mp hnumber
    · exact ⟨.pump, Ty.isPrim_iff.mp hpump⟩
    · exact ⟨.affogato, Ty.isPrim_iff.mp haffogato⟩

theorem unary_stands {operand : Typed.Expr} {e : Expr} {x : Node} {type : Ty}
    (hrule : Typed.UnaryRule op operand.type type) (h : Stands operand e.text x) :
    Stands (.unary op operand type) (Expr.unary (if op == .kwNot then "!" else "-") (.paren e)).text
      (.unary (if op == .kwNot then .not else .minus) x) := by
  refine ⟨(Written.unary (sign_mem hrule) h.expression).unpointed, fun hsign => ?_, fun hprim => ?_⟩
  · cases hsign
  · obtain ⟨p, hp⟩ := prim_of_unaryRule hrule
    exact absurd hp (hprim p)

theorem conditional_written {test consequent alternate : Typed.Expr} {t c a : Expr} {x y z : Node}
    (ht : Stands test t.text x) (hc : Stands consequent c.text y) (ha : Stands alternate a.text z) :
    Written true .called
      (Expr.paren (.conditional (.paren t) (.paren c) (.paren a))).text (.conditional x y z) := by
  have htest := ht.expression.paren.operand.unpointed.signed
  exact (htest.conditional hc.expression.paren.operand.plain
    ha.expression.paren.operand.plain).paren.operand

theorem object_ne_prim {object type : Ty} {field : Option Field} {method : Option PeakLang.Method}
    (h : Typed.MemberRule classes object field method type) (p : Prim) : object ≠ .prim p := by
  cases h <;> rintro ⟨⟩

mutual

/-- JavaScript reads the text of an expression as the translation of the expression, if the names that
it asks for are JavaScript names. -/
theorem expr_written (hown : ∀ b ∈ env, b.builtin = false) (x : Typed.Expr)
    (htyped : x.WellTyped classes) (hclosed : x.Closed env) (hfloat : ∀ z ∈ x.parts, isFloat z = false)
    (hspell : ∀ r ∈ askExpr x, IsIdentifier (nameIn final r.1)) :
    Stands x (namedExpr (nameIn final) x).text (translate final x) := by
  cases x with
  | missing => cases htyped
  | int value => exact int_stands value
  | float value => cases hfloat _ List.mem_cons_self
  | string value => exact .of_called (Written.string value).operand
  | bool value => exact .of_called (Written.bool value).operand
  | self c => exact .of_called Written.this.operand
  | emptyArray type => exact .of_called (Written.items (.inl rfl) .nil).array.operand
  | var v =>
    obtain ⟨w, rfl, hbound⟩ := hclosed
    exact .of_called (reference_written (b := .var w) (by rintro n t ⟨⟩) rfl hown hbound hspell)
  | function f =>
    obtain ⟨g, rfl, hbound⟩ := hclosed
    exact .of_called (reference_written (b := .function g) (by rintro n t ⟨⟩) rfl hown hbound hspell)
  | cls c type =>
    obtain ⟨k, -, rfl, -⟩ := hclosed
    exact .of_called (Written.name (hspell _ List.mem_cons_self)).operand
  | unary op operand type =>
    obtain ⟨-, hoperand⟩ := List.forall_mem_cons.mp hfloat
    exact unary_stands htyped.2 (expr_written hown operand htyped.1 hclosed hoperand hspell)
  | binary op left right type =>
    obtain ⟨hleft, hright⟩ := List.forall_mem_append.mp (List.forall_mem_cons.mp hfloat).2
    obtain ⟨hspellLeft, hspellRight⟩ := List.forall_mem_append.mp hspell
    have hl := expr_written hown left htyped.1 hclosed.1 hleft hspellLeft
    have hr := expr_written hown right htyped.2.1 hclosed.2 hright hspellRight
    exact .of_called (operation_written htyped.2.2 hl hr)
  | conditional test consequent alternate type =>
    obtain ⟨htest, hparts⟩ := List.forall_mem_append.mp (List.forall_mem_cons.mp hfloat).2
    obtain ⟨hconsequent, halternate⟩ := List.forall_mem_append.mp hparts
    obtain ⟨hspellTest, hspellRest⟩ := List.forall_mem_append.mp hspell
    obtain ⟨hspellConsequent, hspellAlternate⟩ := List.forall_mem_append.mp hspellRest
    have ht := expr_written hown test htyped.1 hclosed.1 htest hspellTest
    have hc := expr_written hown consequent htyped.2.1 hclosed.2.1 hconsequent hspellConsequent
    have ha := expr_written hown alternate htyped.2.2.1 hclosed.2.2 halternate hspellAlternate
    exact .of_called (conditional_written ht hc ha)
  | call callee args type =>
    obtain ⟨hcallee, hargs, params, htype, -⟩ := htyped
    obtain ⟨hclosedCallee, hclosedArgs⟩ := hclosed
    obtain ⟨hfloatCallee, hfloatArgs⟩ :=
      List.forall_mem_append.mp (List.forall_mem_cons.mp hfloat).2
    have hitems (hspell : ∀ r ∈ askExprs args, IsIdentifier (nameIn final r.1)) :=
      Written.items (.inr rfl) (exprs_written hown args hargs hclosedArgs hfloatArgs hspell)
    -- What is neither a class nor a method is called as it stands. It is of a function type, so that it
    -- needs no parentheses.
    have hother (hasked : askExpr (.call callee args type) = askExprs args ++ askExpr callee)
        (hnamed : namedExpr (nameIn final) (.call callee args type) =
          .call (namedExpr (nameIn final) callee) (namedExprs (nameIn final) args))
        (htranslate : translate final (.call callee args type) =
          .call (translate final callee) (translateAll final args)) :
        Stands (.call callee args type) (namedExpr (nameIn final) (.call callee args type)).text
          (translate final (.call callee args type)) := by
      rw [hasked] at hspell
      obtain ⟨hspellArgs, hspellCallee⟩ := List.forall_mem_append.mp hspell
      have hf := expr_written hown callee hcallee hclosedCallee hfloatCallee hspellCallee
      have hfunction := hf.object fun p hp => by rw [htype] at hp; cases hp
      rw [hnamed, htranslate]
      exact .of_called (hfunction.unpointed.call (hitems hspellArgs))
    cases callee with
    | cls c type =>
      obtain ⟨k, -, rfl, -⟩ := hclosedCallee
      obtain ⟨hspellArgs, hspellClass⟩ := List.forall_mem_append.mp hspell
      have hname := (Written.name (hspellClass _ List.mem_cons_self)).accessed
      exact .of_called (hname.unpointed.new (hitems hspellArgs)).called
    | member object field method type =>
      cases method with
      | some m =>
        obtain ⟨-, hfloatObject⟩ := List.forall_mem_cons.mp hfloatCallee
        obtain ⟨hspellArgs, hspellCallee⟩ := List.forall_mem_append.mp hspell
        obtain ⟨hspellObject, hspellMethod⟩ := List.forall_mem_append.mp hspellCallee
        have ho := expr_written hown object hcallee.1 hclosedCallee.1 hfloatObject hspellObject
        have hmember := (ho.object (object_ne_prim hcallee.2)).member
          (hspellMethod _ List.mem_cons_self)
        exact .of_called (hmember.unpointed.call (hitems hspellArgs))
      | none => exact hother rfl rfl rfl
    | _ => exact hother rfl rfl rfl
  | index object i type =>
    obtain ⟨hobject, hi, htype, -⟩ := htyped
    obtain ⟨hfloatObject, hfloatIndex⟩ :=
      List.forall_mem_append.mp (List.forall_mem_cons.mp hfloat).2
    obtain ⟨hspellObject, hspellIndex⟩ := List.forall_mem_append.mp hspell
    have ho := expr_written hown object hobject hclosed.1 hfloatObject hspellObject
    have hj := expr_written hown i hi hclosed.2 hfloatIndex hspellIndex
    have harray := ho.object fun p hp => by rw [htype] at hp; cases hp
    exact .of_called (harray.unpointed.index hj.expression)
  | member object field method type =>
    obtain ⟨-, hfloatObject⟩ := List.forall_mem_cons.mp hfloat
    have ho (hspell : ∀ r ∈ askExpr object, IsIdentifier (nameIn final r.1)) :=
      (expr_written hown object htyped.1 hclosed.1 hfloatObject hspell).object
        (object_ne_prim htyped.2)
    cases field with
    | some f =>
      obtain ⟨hspellObject, hspellField⟩ := List.forall_mem_append.mp hspell
      exact .of_called ((ho hspellObject).member (hspellField _ List.mem_cons_self))
    | none =>
      obtain ⟨m, rfl⟩ := method_of_no_field hclosed.2
      obtain ⟨hspellObject, hspellMethod⟩ := List.forall_mem_append.mp hspell
      have hmember := (ho hspellObject).member (hspellMethod _ List.mem_cons_self)
      have hbind : IsIdentifier "bind" := isIdentifier_of_decide (by decide)
      exact .of_called (calledWith (hmember.member hbind) (ho hspellObject).plain)
  | array elements type =>
    obtain ⟨-, hparts⟩ := List.forall_mem_cons.mp hfloat
    have hitems := exprs_written hown elements htyped.2.1 hclosed hparts hspell
    exact .of_called (Written.items (.inl rfl) hitems).array.operand

theorem exprs_written (hown : ∀ b ∈ env, b.builtin = false) (xs : List Typed.Expr)
    (htyped : Typed.Expr.WellTypedAll classes xs) (hclosed : Typed.Expr.ClosedAll env xs)
    (hfloat : ∀ z ∈ Typed.Expr.partsOfAll xs, isFloat z = false)
    (hspell : ∀ r ∈ askExprs xs, IsIdentifier (nameIn final r.1)) :
    List.Forall₂ (Written false .item) (Expr.textOfAll (namedExprs (nameIn final) xs))
      (translateAll final xs) := by
  cases xs with
  | nil => exact .nil
  | cons x rest =>
    obtain ⟨hfirst, hrest⟩ := List.forall_mem_append.mp hfloat
    obtain ⟨hspellFirst, hspellRest⟩ := List.forall_mem_append.mp hspell
    exact .cons (expr_written hown x htyped.1 hclosed.1 hfirst hspellFirst).expression.item
      (exprs_written hown rest htyped.2 hclosed.2 hrest hspellRest)

end

end Expressions

section Programs

variable {source : Text} {tree : Tree.Program} {program q : Typed.Program}

/-- An analyzed program obeys the rules, is closed and has names of its source, before and after it
was simplified. -/
theorem analyzed_rules (hparse : Tree.Parser.parse source = ⟨tree, []⟩)
    (h : Analysis.analyze tree = .ok program) (hq : q = program ∨ q = program.simplify) :
    q.WellTyped ∧ q.Closed ∧ Sourced (Typed.Stmt.boundInAll q) := by
  obtain ⟨state, hchecked⟩ := Analysis.analyze_checked h
  have hrules := hchecked.wellTyped
  have hclosed := Analysis.program_closed h
  have hnamed := Analysis.analyze_named hparse h
  obtain rfl | rfl := hq
  · exact ⟨hrules, hclosed, fun b hb => ⟨hnamed b hb, hclosed.own b hb⟩⟩
  · have hsimple := hclosed.simplify hrules
    refine ⟨hrules.simplify hclosed, hsimple, fun b hb => ⟨hnamed b ?_, hsimple.own b hb⟩⟩
    exact (Typed.Stmt.boundInAll_simplify program).subset hb

/-- The expressions of a program, and their parts, are written as their translations. A return without
a value has no expression, which is written all the same. -/
theorem part_written (hrules : q.WellTyped) (hclosed : q.Closed)
    (hnamed : Sourced (Typed.Stmt.boundInAll q)) {s : Typed.Stmt} (hs : s ∈ Typed.Stmt.partsOfAll q)
    {e x : Typed.Expr} (he : e ∈ s.exprs) (hx : x ∈ e.parts) {names : Names} (hgiven : names.Given)
    (hfloat : ∀ z ∈ x.parts, isFloat z = false)
    (hplain : ∀ z ∈ x.parts, ∀ key ∈ keys z, ∀ n ∈ (expr x names).2.lookup key, IsPlain n) :
    Written false .expression (expr x names).1.text (translate (expr x names).2 x) := by
  obtain ⟨function, hstatement⟩ := Typed.Stmt.WellTypedAll.parts q hrules s hs
  obtain rfl | htyped := hstatement.exprs e he
  · cases List.mem_singleton.mp hx
    have hname : IsIdentifier "undefined" := isIdentifier_of_decide (by decide)
    exact (Written.name hname).operand.plain
  · have hpart := (hclosed.exprs hs he).parts e x hx
    have hspell : ∀ r ∈ askExpr x, IsIdentifier (nameIn (expr x names).2 r.1) := by
      intro r hr
      have hlookup := names.lookup_requestAll hr
      rw [← (expr_follows x).names] at hlookup
      obtain ⟨n, hn⟩ := hlookup
      obtain ⟨word, k, hword, rfl⟩ := expr_given hnamed hpart hgiven r.1 n hn
      rw [nameIn_eq hn]
      exact isIdentifier_of_isPlain hword (forall_asked x hplain r hr _ hn)
    have hstands := expr_written hclosed.own x (htyped.parts e x hx) hpart hfloat hspell
    rw [← (expr_follows x).spelled names] at hstands
    exact hstands.expression

/-- JavaScript reads the text of an expression of an analyzed program as the translation of the
expression, and in no other way, before and after the program was simplified, and whichever of the
program's names were given before. The expression has no floating-point constants, and the names that
it refers to have no vertical tilde. -/
theorem expr_parses (hparse : Tree.Parser.parse source = ⟨tree, []⟩)
    (hanalyze : Analysis.analyze tree = .ok program) (hq : q = program ∨ q = program.simplify)
    {s : Typed.Stmt} (hs : s ∈ Typed.Stmt.partsOfAll q) {e x : Typed.Expr} (he : e ∈ s.exprs)
    (hx : x ∈ e.parts) (hfloat : ∀ z ∈ x.parts, isFloat z = false) {names : Names}
    (hnames : names.Extends (stmts q []).2)
    (hplain : ∀ z ∈ x.parts, ∀ key ∈ keys z, ∀ n ∈ (expr x names).2.lookup key, IsPlain n) (r : Node) :
    Parses (expr x names).1.text r ↔ r = translate (expr x names).2 x := by
  obtain ⟨hrules, hclosed, hnamed⟩ := analyzed_rules hparse hanalyze hq
  have hgiven := (program_given hrules hclosed hnamed).of_extends hnames
  have hparses := (part_written hrules hclosed hnamed hs he hx hgiven hfloat hplain).parses
  constructor
  · intro hr
    exact hr.unique hparses
  · rintro rfl
    exact hparses

end Programs

section Examples

/-- A constant that simplifying makes negative before a power, a method that is selected without a call,
and a quotient. -/
private def pouring : Text :=
  "order Cup { item fill(n: pump) -> pump { serve n } } " ++
    "let n = 2 remake (1 - 3) ** [Cup().fill][0](n / -n)"

private def pouringTree : Tree.Program :=
  let column (n : Int) : Pos := ⟨1, n⟩
  [.cls "Cup" []
      [.mk "fill" [⟨"n", .named "pump" (column 26), column 23⟩] (some (.named "pump" (column 35)))
        [.ret (some (.name "n" (column 48))) (column 42)] (column 40) (column 18)] (column 7),
    .declare "n" false (.int "2" (column 62)) (column 58),
    .print (.binary .pow
      (.binary .sub (.int "1" (column 72)) (.int "3" (column 76)) (column 74))
      (.call
        (.index
          (.array [.member (.call (.name "Cup" (column 83)) [] (column 86)) "fill" (column 89)]
            (column 82))
          (.int "0" (column 95)) (column 94))
        [.binary .div (.name "n" (column 98)) (.unary .neg (.name "n" (column 103)) (column 102))
          (column 100)]
        (column 97)) (column 79)) (column 64)]

private def pouringCup : ClassRef := ⟨9, "Cup"⟩

private def pouringFill : PeakLang.Method := ⟨9, 0, "fill", some ⟨[.pump], .pump⟩⟩

private def pouringSize : Typed.Expr := .var (some ⟨11, "n", .pump, false, false⟩)

/-- `left ** [Cup().fill][0](n / -n)`. -/
private def pouringPower (left : Typed.Expr) : Typed.Expr :=
  let fill : Ty := .function [.pump] .pump
  .binary .power left
    (.call
      (.index
        (.array
          [.member (.call (.cls (some pouringCup) (.function [] (.cls pouringCup))) [] (.cls pouringCup))
            none (some pouringFill) fill]
          (.array fill))
        (.int 0) fill)
      [.binary .slash pouringSize (.unary .minus pouringSize .pump) .pump] .pump) .pump

private def poured : Typed.Program :=
  let n : Variable := ⟨10, "n", .pump, false, false⟩
  [.cls (some (Class.ofMembers pouringCup [] [("fill", some ⟨[.pump], .pump⟩)]))
      [.mk (some pouringFill) [some n] [.ret (.var (some n))]],
    .declare (some ⟨11, "n", .pump, false, false⟩) (.int 2),
    .print (pouringPower (.binary .minus (.int 1) (.int 3) .pump))]

private theorem parse_pouring : Tree.Parser.parse pouring = ⟨pouringTree, []⟩ := by
  decide +kernel

/-- A negative constant is put in parentheses before a power, a method is bound to its object, and an
integer quotient is cut. The names are those of the whole program. -/
theorem expr_parses_pouring :
    Tree.Parser.parse pouring = ⟨pouringTree, []⟩ ∧ Analysis.analyze pouringTree = .ok poured ∧
      Typed.Stmt.print (pouringPower (.int (-2))) ∈ Typed.Stmt.partsOfAll poured.simplify ∧
      ∀ r, Parses "((-2) ** [new Cup_1().fill_2.bind(new Cup_1())][0](Math.trunc((n_4 / -(n_4)))))" r ↔
        r = .binary .pow (.unary .minus (.number 2))
          (.call
            (.index
              (.array
                [.call (.member (.member (.new (.name "Cup_1") []) "fill_2") "bind")
                  [.new (.name "Cup_1") []]])
              (.number 0))
            [.call (.member (.name "Math") "trunc")
              [.binary .div (.name "n_4") (.unary .minus (.name "n_4"))]]) := by
  have hanalyze : Analysis.analyze pouringTree = .ok poured := rfl
  have hmem : Typed.Stmt.print (pouringPower (.int (-2))) ∈ Typed.Stmt.partsOfAll poured.simplify :=
    List.getElem_mem (n := 3) (by decide)
  have hread := expr_parses parse_pouring hanalyze (.inr rfl) hmem List.mem_cons_self
    List.mem_cons_self (by decide) (.refl (stmts poured.simplify []).2) (by decide)
  exact ⟨parse_pouring, hanalyze, hmem, hread⟩

/-- A variable whose name is a letter that JavaScript does not take in names. -/
private def tilde : Variable := ⟨9, "ⸯ", .pump, false, false⟩

private def tildeTree : Tree.Program :=
  [.declare "ⸯ" false (.int "1" ⟨1, 9⟩) ⟨1, 5⟩, .print (.name "ⸯ" ⟨1, 18⟩) ⟨1, 11⟩]

/-- The text of a reference to that variable is no JavaScript expression. -/
theorem not_parses_verticalTilde :
    Tree.Parser.parse "let ⸯ = 1 remake ⸯ" = ⟨tildeTree, []⟩ ∧
      Analysis.analyze tildeTree = .ok [.declare (some tilde) (.int 1), .print (.var (some tilde))] ∧
      (expr (.var (some tilde)) []).1.text = "ⸯ_1" ∧ ∀ r, ¬ Parses "ⸯ_1" r := by
  have htokens : Token.tokenize "let ⸯ = 1 remake ⸯ" =
      [⟨.kwLet, "let", ⟨1, 1⟩⟩, ⟨.ident, "ⸯ", ⟨1, 5⟩⟩, ⟨.assign, "=", ⟨1, 7⟩⟩,
        ⟨.intLit, "1", ⟨1, 9⟩⟩, ⟨.kwRemake, "remake", ⟨1, 11⟩⟩, ⟨.ident, "ⸯ", ⟨1, 18⟩⟩,
        ⟨.eof, "", ⟨1, 19⟩⟩] := by
    decide +kernel
  have hparse : Tree.Parser.parse "let ⸯ = 1 remake ⸯ" = ⟨tildeTree, []⟩ := by
    rw [Tree.Parser.parse, htokens]
    rfl
  refine ⟨hparse, rfl, rfl, ?_⟩
  rintro r ⟨ts, hlexes, hderives⟩
  have hnone : next? (226 :: [184, 175, 95, 49]) = none := by decide +kernel
  rw [show ("ⸯ_1" : Text) = 226 :: [184, 175, 95, 49] from rfl] at hlexes
  cases hlexes with
  | blank hblank => cases hblank
  | token hnext =>
    rw [hnone] at hnext
    cases hnext

end Examples

end PeakLang.Js
