import PeakLang.Proofs.Tree.Legible

namespace PeakLang

/-- A token that has only one spelling. -/
def Token.sign (kind : TokenKind) : Token := ⟨kind, kind.spelling?.getD [], .start⟩

def Token.word (name : Text) : Token := ⟨.ident, name, .start⟩

@[simp]
theorem Token.kind_sign (kind : TokenKind) : (Token.sign kind).kind = kind := rfl

@[simp]
theorem Token.kind_word (name : Text) : (Token.word name).kind = .ident := rfl

namespace Piece

/-- The tokens among pieces, all at the start of the source. -/
def words (pieces : List Piece) : List Token := (tokens pieces).map fun t => ⟨t.1, t.2, .start⟩

@[simp]
theorem words_nil : words [] = [] := rfl

@[simp]
theorem words_token_cons (kind : TokenKind) (literal : Text) (ps : List Piece) :
    words (.token kind literal :: ps) = ⟨kind, literal, .start⟩ :: words ps := rfl

@[simp]
theorem words_mark_cons (kind : TokenKind) (ps : List Piece) :
    words (.mark kind :: ps) = .sign kind :: words ps := rfl

@[simp]
theorem words_name_cons (name : Text) (ps : List Piece) :
    words (.name name :: ps) = .word name :: words ps := rfl

@[simp]
theorem words_space_cons (ps : List Piece) : words (.space :: ps) = words ps := rfl

@[simp]
theorem words_newline_cons (ps : List Piece) : words (.newline :: ps) = words ps := rfl

@[simp]
theorem words_indent_cons (depth : Nat) (ps : List Piece) : words (.indent depth :: ps) = words ps :=
  rfl

@[simp]
theorem words_append (ps qs : List Piece) : words (ps ++ qs) = words ps ++ words qs := by
  simp [words, tokens]

@[simp]
theorem words_separated_nil (separator : List Piece) : words (separated separator []) = [] := rfl

@[simp]
theorem words_separated_singleton (separator ps : List Piece) :
    words (separated separator [ps]) = words ps := by
  rw [separated, List.intercalate_singleton]

@[simp]
theorem words_separated_cons_cons (separator ps qs : List Piece) (rest : List (List Piece)) :
    words (separated separator (ps :: qs :: rest)) =
      words ps ++ (words separator ++ words (separated separator (qs :: rest))) := by
  rw [separated, List.intercalate_cons_cons, words_append, words_append, separated, List.append_assoc]

@[simp]
theorem words_formatLine (depth : Nat) (ps : List Piece) :
    words (Tree.formatLine depth ps) = words ps := by
  simp [Tree.formatLine]

@[simp]
theorem words_enclosed (ps : List Piece) :
    words (Tree.Expr.enclosed ps) = .sign .lparen :: (words ps ++ [.sign .rparen]) := by
  simp [Tree.Expr.enclosed]

end Piece

namespace TypeExpr

/-- The tokens of a type as it is written. -/
def words (t : TypeExpr) : List Token := Piece.words t.pieces

/-- The tokens of types with commas between them. -/
def listWords (ts : List TypeExpr) : List Token :=
  Piece.words (Piece.separated [.mark .comma] (piecesOfAll ts))

theorem words_array (base : TypeExpr) (pos : Pos) :
    (array base pos).words = .sign .lbracket :: (base.words ++ [.sign .rbracket]) := by
  simp [words, pieces]

theorem words_optional (base : TypeExpr) (pos : Pos) :
    (optional base pos).words = base.words ++ [.sign .question] := by
  simp [words, pieces]

theorem words_function (params : List TypeExpr) (result : TypeExpr) (pos : Pos) :
    (function params result pos).words =
      .sign .lparen :: (listWords params ++ .sign .rparen :: .sign .arrow :: result.words) := by
  simp [words, listWords, pieces]

theorem listWords_nil : listWords [] = [] := rfl

theorem listWords_singleton (t : TypeExpr) : listWords [t] = t.words := by
  simp [listWords, words, piecesOfAll]

theorem listWords_cons_cons (t t' : TypeExpr) (rest : List TypeExpr) :
    listWords (t :: t' :: rest) = t.words ++ .sign .comma :: listWords (t' :: rest) := by
  simp [listWords, words, piecesOfAll]

/-- The first token of a type does not close parentheses. -/
theorem words_head (t : TypeExpr) : ∃ w ws, t.words = w :: ws ∧ w.kind ≠ .rparen := by
  cases t with
  | named name => exact ⟨_, _, rfl, nofun⟩
  | array base => exact ⟨_, _, words_array base _, nofun⟩
  | optional base =>
    obtain ⟨w, ws, hwords, hkind⟩ := words_head base
    exact ⟨w, _, by rw [words_optional, hwords, List.cons_append], hkind⟩
  | function params result => exact ⟨_, _, words_function params result _, nofun⟩

theorem listWords_head (t : TypeExpr) (rest : List TypeExpr) :
    ∃ w ws, listWords (t :: rest) = w :: ws ∧ w.kind ≠ .rparen := by
  obtain ⟨w, ws, hwords, hkind⟩ := words_head t
  cases rest with
  | nil => exact ⟨w, ws, by rw [listWords_singleton, hwords], hkind⟩
  | cons t' rest => exact ⟨w, _, by rw [listWords_cons_cons, hwords, List.cons_append], hkind⟩

theorem words_head_of_isArrayLike {t : TypeExpr} (h : t.isArrayLike = true) :
    ∃ ts, t.words = .sign .lbracket :: ts := by
  cases t with
  | array base => exact ⟨_, words_array base _⟩
  | optional base =>
    obtain ⟨ts, hts⟩ := words_head_of_isArrayLike (t := base) h
    exact ⟨ts ++ [.sign .question], by rw [words_optional, hts, List.cons_append]⟩
  | named | function => exact nomatch h

end TypeExpr

namespace Tree.Expr

/-- The tokens of an expression as it is written. -/
def words (e : Expr) : List Token := Piece.words e.pieces

/-- The tokens of expressions with commas between them. -/
def listWords (es : List Expr) : List Token :=
  Piece.words (Piece.separated [.mark .comma, .space] (piecesOfAll es))

/-- The tokens of an expression as it is written where it may need parentheses. -/
def operandWords (enclosed : Bool) (e : Expr) : List Token :=
  Piece.words (enclosedIf enclosed e.pieces)

theorem operandWords_true (e : Expr) :
    e.operandWords true = .sign .lparen :: (e.words ++ [.sign .rparen]) := by
  simp [operandWords, enclosedIf, words]

theorem operandWords_false (e : Expr) : e.operandWords false = e.words := rfl

theorem listWords_singleton (e : Expr) : listWords [e] = e.words := by
  simp [listWords, words, piecesOfAll]

theorem listWords_cons_cons (e e' : Expr) (rest : List Expr) :
    listWords (e :: e' :: rest) = e.words ++ .sign .comma :: listWords (e' :: rest) := by
  simp [listWords, words, piecesOfAll]

theorem words_array (elements : List Expr) (pos : Pos) :
    (array elements pos).words = .sign .lbracket :: (listWords elements ++ [.sign .rbracket]) := by
  simp [words, listWords, pieces]

theorem words_emptyArray (type : TypeExpr) (pos : Pos) :
    (emptyArray type pos).words = type.words ++ [.sign .lparen, .sign .rparen] := by
  simp [words, TypeExpr.words, pieces]

theorem words_member (object : Expr) (n : Text) (pos : Pos) :
    (member object n pos).words =
      object.operandWords (object.level < 7) ++ [.sign .dot, .word n] := by
  simp [words, operandWords, pieces]

theorem words_index (object i : Expr) (pos : Pos) :
    (index object i pos).words =
      object.operandWords (object.level < 7) ++
        .sign .lbracket :: (i.words ++ [.sign .rbracket]) := by
  simp [words, operandWords, pieces]

theorem words_call (callee : Expr) (args : List Expr) (pos : Pos) :
    (call callee args pos).words =
      callee.operandWords (callee.level < 7) ++
        .sign .lparen :: (listWords args ++ [.sign .rparen]) := by
  simp [words, operandWords, listWords, pieces]

theorem words_unary (op : UnaryOp) (operand : Expr) (pos : Pos) :
    (unary op operand pos).words =
      .sign op.token ::
        operand.operandWords (operand.level < 6 || (op == .neg && operand.isNegation)) := by
  cases op with
  | neg => simp [words, operandWords, pieces, UnaryOp.token]
  | not =>
    have hop : (UnaryOp.not == .neg) = false := rfl
    simp [words, operandWords, pieces, UnaryOp.token, hop]

theorem words_binary (op : BinaryOp) (left right : Expr) (pos : Pos) :
    (binary op left right pos).words =
      left.operandWords (left.level < leftLevel op) ++
        .sign op.token :: right.operandWords (right.level < rightLevel op) := by
  simp [words, operandWords, pieces]

theorem words_conditional (test consequent alternate : Expr) (pos : Pos) :
    (conditional test consequent alternate pos).words =
      test.operandWords (test.level < 1) ++
        .sign .question :: (consequent.words ++ .sign .colon :: alternate.words) := by
  simp [words, operandWords, pieces]

theorem level_binaryOp_le (op : BinaryOp) : 1 ≤ op.level ∧ op.level ≤ 6 := by
  cases op <;> decide

theorem level_binaryOp_le_five {op : BinaryOp} (hop : op ≠ .pow) : op.level ≤ 5 := by
  cases op with
  | pow => exact absurd rfl hop
  | _ => decide

theorem level_le (e : Expr) : e.level ≤ 7 := by
  cases e with
  | binary op => exact Nat.le_succ_of_le (level_binaryOp_le op).2
  | _ => simp [level]

theorem startsExpression_head (e : Expr) : Parser.startsExpression e.head = true := by
  cases e with
  | bool value => cases value <;> rfl
  | member object | index object | call object | conditional object | binary _ object =>
    rw [head]
    split
    · rfl
    · exact startsExpression_head object
  | unary op => cases op <;> rfl
  | _ => rfl

/-- An operand without parentheses does not start with an operator. -/
theorem unary_ofToken?_head {e : Expr} (h : e.level = 7) : UnaryOp.ofToken? e.head = none := by
  cases e with
  | bool value => cases value <;> rfl
  | member object | index object | call object =>
    rw [head]
    split
    · rfl
    · exact unary_ofToken?_head (by have := level_le object; omega)
  | unary | conditional => exact nomatch h
  | binary op => cases op <;> exact nomatch h
  | _ => rfl

/-- Tokens of an expression of some kind start: if they open parentheses, they do not close them at
once. -/
def Opens (k : TokenKind) (ws : List Token) : Prop :=
  ∃ t ts, ws = t :: ts ∧ t.kind = k ∧ (k = .lparen → ∃ t' ts', ts = t' :: ts' ∧ t'.kind ≠ .rparen)

theorem Opens.append {k : TokenKind} {ws : List Token} (h : Opens k ws) (rest : List Token) :
    Opens k (ws ++ rest) := by
  obtain ⟨t, ts, rfl, hkind, hparen⟩ := h
  refine ⟨t, ts ++ rest, rfl, hkind, fun hk => ?_⟩
  obtain ⟨t', ts', rfl, hne⟩ := hparen hk
  exact ⟨t', ts' ++ rest, rfl, hne⟩

theorem opens_cons {t : Token} {ts : List Token} (h : t.kind ≠ .lparen) : Opens t.kind (t :: ts) :=
  ⟨t, ts, rfl, rfl, fun hk => absurd hk h⟩

theorem opens_operandWords {e : Expr} (h : Opens e.head e.words) (c : Prop) [Decidable c] :
    Opens (if c then .lparen else e.head) (e.operandWords (decide c)) := by
  by_cases hc : c
  case neg => simpa only [if_neg hc, decide_eq_false hc, operandWords_false] using h
  case pos =>
    rw [if_pos hc, decide_eq_true hc]
    obtain ⟨t, ts, hwords, hkind, -⟩ := h
    have hne : t.kind ≠ .rparen := fun hk => by
      have hstart := startsExpression_head e
      rw [← hkind, hk] at hstart
      exact nomatch hstart
    refine ⟨.sign .lparen, e.words ++ [.sign .rparen], operandWords_true e, rfl, fun _ => ?_⟩
    exact ⟨t, ts ++ [.sign .rparen], by rw [hwords, List.cons_append], hne⟩

/-- The first token of an expression. -/
theorem opens_words (e : Expr) (h : e.Legible) : Opens e.head e.words := by
  cases e with
  | name | shot | int | float | string => exact opens_cons nofun
  | bool value => cases value <;> exact opens_cons nofun
  | array elements => exact words_array elements _ ▸ opens_cons nofun
  | emptyArray type =>
    obtain ⟨ts, hts⟩ := TypeExpr.words_head_of_isArrayLike h.2
    rw [words_emptyArray, hts]
    exact opens_cons nofun
  | member object n =>
    rw [words_member]
    exact (opens_operandWords (opens_words object h.1) _).append _
  | index object i =>
    rw [words_index]
    exact (opens_operandWords (opens_words object h.1) _).append _
  | call callee args =>
    rw [words_call]
    exact (opens_operandWords (opens_words callee h.1) _).append _
  | unary op operand =>
    rw [words_unary]
    cases op <;> exact opens_cons nofun
  | binary op left right =>
    rw [words_binary]
    exact (opens_operandWords (opens_words left h.1) _).append _
  | conditional test consequent alternate =>
    rw [words_conditional]
    exact (opens_operandWords (opens_words test h.1) _).append _

end Tree.Expr

namespace Tree

def typedWords (name : Text) (type : TypeExpr) : List Token := .word name :: .sign .colon :: type.words

/-- The tokens of parameters with commas between them. -/
def paramWords (params : List Param) : List Token :=
  Piece.words (Piece.separated [.mark .comma, .space] (params.map fun p => typedName p.name p.type))

theorem paramWords_singleton (p : Param) : paramWords [p] = typedWords p.name p.type := by
  simp [paramWords, typedName, typedWords, TypeExpr.words]

theorem paramWords_cons_cons (p p' : Param) (rest : List Param) :
    paramWords (p :: p' :: rest) =
      typedWords p.name p.type ++ .sign .comma :: paramWords (p' :: rest) := by
  simp [paramWords, typedName, typedWords, TypeExpr.words]

def fieldWords (fields : List Field) : List Token := fields.flatMap fun f => typedWords f.name f.type

/-- The tokens of a result type, if there is one. -/
def resultWords : Option TypeExpr → List Token
  | none => []
  | some t => .sign .arrow :: t.words

/-- The tokens of a statement as it is written at a depth. -/
def Stmt.words (depth : Nat) (s : Stmt) : List Token := Piece.words (s.pieces depth)

/-- The tokens of statements in a row. -/
def Stmt.listWords (depth : Nat) (body : List Stmt) : List Token :=
  Piece.words (Stmt.piecesOfAll depth body)

def Func.words (depth : Nat) (f : Func) : List Token := Piece.words (f.pieces depth)

/-- The tokens of methods in a row. -/
def Func.listWords (depth : Nat) (apart : Bool) (fs : List Func) : List Token :=
  Piece.words (Func.piecesOfAll depth apart fs)

def Branch.words (depth : Nat) (b : Branch) : List Token := Piece.words (b.pieces depth)

/-- The tokens of what follows a branch, after the brace that closes its body. -/
def Otherwise.words (depth : Nat) : Otherwise → List Token
  | .nothing => []
  | .block body _ =>
    .sign .kwPull :: .sign .lbrace :: (Stmt.listWords (depth + 1) body ++ [.sign .rbrace])
  | .chain next => .sign .kwPull :: next.words depth

theorem words_otherwise (o : Otherwise) (depth : Nat) :
    Piece.words (o.pieces depth) = .sign .rbrace :: o.words depth := by
  cases o <;> simp [Otherwise.pieces, Otherwise.words, closing, Stmt.listWords, Branch.words]

theorem Branch.words_mk (test : Expr) (body : List Stmt) (otherwise : Otherwise)
    (bodyPos pos : Pos) (depth : Nat) :
    (Branch.mk test body bodyPos otherwise pos).words depth =
      .sign .kwBrew :: (test.words ++ .sign .lbrace ::
        (Stmt.listWords (depth + 1) body ++ .sign .rbrace :: otherwise.words depth)) := by
  simp [Branch.words, Branch.pieces, Expr.words, Stmt.listWords, words_otherwise]

theorem Func.words_mk (name : Text) (params : List Param) (result : Option TypeExpr)
    (body : List Stmt) (bodyPos pos : Pos) (depth : Nat) :
    (Func.mk name params result body bodyPos pos).words depth =
      .sign .kwItem :: .word name :: .sign .lparen :: (paramWords params ++ .sign .rparen ::
        (resultWords result ++ .sign .lbrace ::
          (Stmt.listWords (depth + 1) body ++ [.sign .rbrace]))) := by
  cases result <;>
    simp [Func.words, Func.pieces, functionHead, paramWords, resultWords, TypeExpr.words,
      Stmt.listWords, closing]

theorem Func.listWords_cons (depth : Nat) (apart : Bool) (f : Func) (rest : List Func) :
    Func.listWords depth apart (f :: rest) = f.words depth ++ Func.listWords depth true rest := by
  cases apart <;> simp [Func.listWords, Func.piecesOfAll, Func.words]

theorem Stmt.listWords_cons (depth : Nat) (s : Stmt) (rest : List Stmt) :
    Stmt.listWords depth (s :: rest) = s.words depth ++ Stmt.listWords depth rest := by
  simp [Stmt.listWords, Stmt.piecesOfAll, Stmt.words]

namespace Stmt

variable (depth : Nat)

theorem words_declare (name : Text) (readOnly : Bool) (value : Expr) (pos : Pos) :
    (declare name readOnly value pos).words depth =
      .sign (if readOnly then .kwConst else .kwLet) :: .word name :: .sign .assign :: value.words := by
  simp [words, pieces, Expr.words]

theorem words_function (f : Func) : (function f).words depth = f.words depth := by
  simp [words, pieces, Func.words]

theorem words_cls (name : Text) (fields : List Field) (methods : List Func) (pos : Pos) :
    (cls name fields methods pos).words depth =
      .sign .kwOrder :: .word name :: .sign .lbrace :: (fieldWords fields ++
        (Func.listWords (depth + 1) (!fields.isEmpty) methods ++ [.sign .rbrace])) := by
  have hfields : Piece.words
      (fields.flatMap fun f => formatLine (depth + 1) (typedName f.name f.type)) =
        fieldWords fields := by
    induction fields with
    | nil => rfl
    | cons f rest ih =>
      simp [fieldWords, typedWords, typedName, TypeExpr.words] at ih ⊢
      exact ih
  simp [words, pieces, Func.listWords, closing, hfields]

theorem words_assign (target value : Expr) (pos : Pos) :
    (assign target value pos).words depth = target.words ++ .sign .assign :: value.words := by
  simp [words, pieces, Expr.words]

theorem words_bump (op : BumpOp) (target : Expr) (pos : Pos) :
    (bump op target pos).words depth = target.words ++ [.sign op.token] := by
  simp [words, pieces, Expr.words]

theorem words_branch (b : Branch) : (branch b).words depth = b.words depth := by
  simp [words, pieces, Branch.words]

theorem words_loop (test : Expr) (body : List Stmt) (bodyPos pos : Pos) :
    (loop test body bodyPos pos).words depth =
      .sign .kwBlend :: (test.words ++ .sign .lbrace ::
        (Stmt.listWords (depth + 1) body ++ [.sign .rbrace])) := by
  simp [words, pieces, Expr.words, Stmt.listWords, closing]

theorem words_forEach (name : Text) (collection : Expr) (body : List Stmt)
    (namePos bodyPos pos : Pos) :
    (forEach name namePos collection body bodyPos pos).words depth =
      .sign .kwRistretto :: .word name :: .sign .kwEspresso :: (collection.words ++ .sign .lbrace ::
        (Stmt.listWords (depth + 1) body ++ [.sign .rbrace])) := by
  simp [words, pieces, Expr.words, Stmt.listWords, closing]

theorem words_ret (value : Option Expr) (pos : Pos) :
    (ret value pos).words depth = .sign .kwServe :: (value.map Expr.words).getD [] := by
  cases value <;> simp [words, pieces, Expr.words]

theorem words_print (value : Expr) (pos : Pos) :
    (print value pos).words depth = .sign .kwRemake :: value.words := by
  simp [words, pieces, Expr.words]

theorem words_call (callee : Expr) (args : List Expr) (callPos pos : Pos) :
    (call callee args callPos pos).words depth = (Expr.call callee args callPos).words := by
  simp [words, pieces, Expr.words]

end Stmt

end Tree

end PeakLang
