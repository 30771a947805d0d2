import PeakLang.Analysis
import PeakLang.Proofs.Js.Numbering
import PeakLang.Proofs.Js.Words
import PeakLang.Proofs.Number.Shortest
import PeakLang.Proofs.Tree.Same
import PeakLang.Proofs.Typed.Preserve
import PeakLang.Tree.Parser

namespace PeakLang.Js

section References

/-- Whether an expression is a reference to the function with an identity that is not built in. -/
def refersTo (id : Nat) : Typed.Expr → Bool
  | .function (some f) => !f.builtin && f.id == id
  | _ => false

/-- The number of references to a function in an expression. -/
def references (id : Nat) (e : Typed.Expr) : Nat := e.parts.countP (refersTo id)

mutual

/-- For each reference to a function in an expression, from left to right, the number of objects that it
is part of whose methods are selected without being called. -/
def depths (id : Nat) : Typed.Expr → List Nat
  | .function f => if refersTo id (.function f) then [0] else []
  | .unary _ operand _ => depths id operand
  | .binary _ left right _ => depths id left ++ depths id right
  | .conditional test consequent alternate _ =>
    depths id test ++ (depths id consequent ++ depths id alternate)
  | .call (.member object _ (some _) _) args _ => depths id object ++ depthsOfAll id args
  | .call callee args _ => depths id callee ++ depthsOfAll id args
  | .index object i _ => depths id object ++ depths id i
  | .member object (some _) _ _ => depths id object
  | .member object none _ _ => (depths id object).map (· + 1)
  | .array elements _ => depthsOfAll id elements
  | _ => []

def depthsOfAll (id : Nat) : List Typed.Expr → List Nat
  | [] => []
  | e :: rest => depths id e ++ depthsOfAll id rest

end

/-- How often references are written whose depths are given: each depth doubles a reference. -/
def copies (ds : List Nat) : Nat := (ds.map (2 ^ ·)).sum

theorem copies_append (ds es : List Nat) : copies (ds ++ es) = copies ds + copies es := by
  rw [copies, List.map_append, List.sum_append]
  rfl

theorem copies_succ (ds : List Nat) : copies (ds.map (· + 1)) = copies ds + copies ds := by
  induction ds with
  | nil => rfl
  | cons d ds ih =>
    simp only [copies, List.map_cons, List.sum_cons] at ih ⊢
    rw [ih, Nat.pow_succ]
    omega

theorem length_le_copies (ds : List Nat) : ds.length ≤ copies ds := by
  induction ds with
  | nil => exact Nat.le_refl 0
  | cons d ds ih =>
    have hpos : 0 < 2 ^ d := Nat.two_pow_pos d
    simp only [copies, List.map_cons, List.sum_cons, List.length_cons] at ih ⊢
    omega

/-- References are written once each if none of them is part of such an object, and only then. -/
theorem copies_eq_length_iff (ds : List Nat) : copies ds = ds.length ↔ ∀ d ∈ ds, d = 0 := by
  induction ds with
  | nil => simp [copies]
  | cons d ds ih =>
    have hle := length_le_copies ds
    have hpos : 0 < 2 ^ d := Nat.two_pow_pos d
    rw [List.forall_mem_cons, ← ih]
    simp only [copies, List.map_cons, List.sum_cons, List.length_cons] at hle ⊢
    constructor
    · intro hsum
      have hone : 2 ^ d = 1 := by omega
      exact ⟨(Nat.pow_eq_one.mp hone).resolve_left (by decide), by omega⟩
    · rintro ⟨rfl, hrest⟩
      omega

/-- An expression that is no reference has the references of its parts. -/
theorem countP_cons_refersTo {id : Nat} {e : Typed.Expr} (h : refersTo id e = false)
    (parts : List Typed.Expr) : (e :: parts).countP (refersTo id) = parts.countP (refersTo id) :=
  List.countP_cons_of_neg (by rw [h]; exact Bool.false_ne_true)

mutual

/-- There is a depth for each reference. -/
theorem length_depths (id : Nat) (e : Typed.Expr) :
    (depths id e).length = e.parts.countP (refersTo id) := by
  cases e with
  | function f =>
    change (if refersTo id (.function f) then [0] else []).length =
      [Typed.Expr.function f].countP (refersTo id)
    rw [List.countP_singleton]
    split <;> rfl
  | unary op operand type =>
    rw [depths, Typed.Expr.parts, countP_cons_refersTo rfl, length_depths id operand]
  | binary op left right type =>
    rw [depths, Typed.Expr.parts, countP_cons_refersTo rfl, List.length_append, List.countP_append,
      length_depths id left, length_depths id right]
  | conditional test consequent alternate type =>
    rw [depths, Typed.Expr.parts, countP_cons_refersTo rfl, List.length_append, List.length_append,
      List.countP_append, List.countP_append, length_depths id test, length_depths id consequent,
      length_depths id alternate]
  | call callee args type =>
    have hcallee := length_depths id callee
    have hargs := length_depthsOfAll id args
    rw [Typed.Expr.parts, countP_cons_refersTo rfl, List.countP_append, ← hargs]
    -- Calling a method takes its object as it is.
    cases callee with
    | member object field method type =>
      cases method with
      | some m =>
        rw [Typed.Expr.parts, countP_cons_refersTo rfl, ← length_depths id object]
        exact List.length_append
      | none =>
        rw [← hcallee]
        exact List.length_append
    | _ =>
      rw [← hcallee]
      exact List.length_append
  | index object i type =>
    rw [depths, Typed.Expr.parts, countP_cons_refersTo rfl, List.length_append, List.countP_append,
      length_depths id object, length_depths id i]
  | member object field method type =>
    rw [Typed.Expr.parts, countP_cons_refersTo rfl, ← length_depths id object]
    cases field with
    | some f => rfl
    | none => exact List.length_map _
  | array elements type =>
    rw [depths, Typed.Expr.parts, countP_cons_refersTo rfl, length_depthsOfAll id elements]
  | _ => rfl

theorem length_depthsOfAll (id : Nat) (es : List Typed.Expr) :
    (depthsOfAll id es).length = (Typed.Expr.partsOfAll es).countP (refersTo id) := by
  cases es with
  | nil => rfl
  | cons e rest =>
    rw [depthsOfAll, Typed.Expr.partsOfAll, List.length_append, List.countP_append,
      length_depths id e, length_depthsOfAll id rest]

end

end References

section Spelling

variable {spell : EntityKey → Text} {n : Text} {id : Nat} {requests requests' : List Request}

/-- Whether the entities of requests are spelled by words, the function alone by its name. -/
structure SpelledApart (spell : EntityKey → Text) (n : Text) (id : Nat) (requests : List Request) :
    Prop where
  word : ∀ r ∈ requests, spell r.1 ≠ [] ∧ ∀ b ∈ spell r.1, isWordByte b = true
  own : ∀ r ∈ requests, spell r.1 = n ↔ r.1 = .function id

theorem SpelledApart.of_subset (h : SpelledApart spell n id requests)
    (hsubset : requests' ⊆ requests) : SpelledApart spell n id requests' :=
  ⟨fun r hr => h.word r (hsubset hr), fun r hr => h.own r (hsubset hr)⟩

theorem SpelledApart.left (h : SpelledApart spell n id (requests ++ requests')) :
    SpelledApart spell n id requests :=
  h.of_subset (List.subset_append_left _ _)

theorem SpelledApart.right (h : SpelledApart spell n id (requests ++ requests')) :
    SpelledApart spell n id requests' :=
  h.of_subset (List.subset_append_right _ _)

/-- An entity that is no function is spelled otherwise. -/
theorem SpelledApart.counts_other {key : EntityKey} {source : Text}
    (h : SpelledApart spell n id [(key, source)]) (hkey : ∀ id, key ≠ .function id) :
    Counts n 0 (Expr.name (spell key)).text := by
  obtain ⟨hne, hbytes⟩ := h.word _ List.mem_cons_self
  have hother : spell key ≠ n := fun heq => hkey id ((h.own _ List.mem_cons_self).mp heq)
  have hword : Counts n (if spell key = n then 1 else 0) (spell key) := .word hne hbytes
  rwa [if_neg hother] at hword

theorem builtins_plain : ∀ b ∈ builtins, 34 ∉ b.2 ∧ 95 ∉ b.2 := by decide

/-- What is built in has no underscore. -/
theorem counts_builtin (hn : 95 ∈ n) (name : Text) : Counts n 0 (builtin name).text := by
  change Counts n 0 ((builtins.lookup name).getD [])
  cases hlookup : builtins.lookup name with
  | none => exact .nil
  | some code =>
    obtain ⟨hquote, hbar⟩ := builtins_plain _ (mem_of_lookup hlookup)
    exact .of_notMem hquote hn hbar

theorem counts_namedVar (hn : 95 ∈ n) {v : Option Variable} (h : SpelledApart spell n id (askVar v)) :
    Counts n 0 (namedVar spell v).text := by
  cases v with
  | none => exact .nil
  | some v =>
    rw [askVar] at h
    rw [namedVar]
    split
    · exact counts_builtin hn v.name
    · rename_i hbuiltin
      rw [if_neg hbuiltin] at h
      exact h.counts_other fun _ => by simp

theorem counts_namedClass {c : Option ClassRef} (h : SpelledApart spell n id (askClass c)) :
    Counts n 0 (namedClass spell c).text := by
  cases c with
  | none => exact .nil
  | some c => exact h.counts_other fun _ => by simp

theorem counts_namedMethod {m : Option PeakLang.Method} (h : SpelledApart spell n id (askMethod m)) :
    Counts n 0 (namedMethod spell m).text := by
  cases m with
  | none => exact .nil
  | some m => exact h.counts_other fun _ => by simp

/-- A reference to a function is written by its name. -/
theorem counts_namedFunction (hn : 95 ∈ n) {f : Option Function}
    (h : SpelledApart spell n id (askFunction f)) :
    Counts n (copies (depths id (.function f))) (namedFunction spell f).text := by
  cases f with
  | none => exact .nil
  | some f =>
    rw [askFunction] at h
    rw [namedFunction, depths, refersTo]
    by_cases hbuiltin : f.builtin = true
    · rw [hbuiltin]
      exact counts_builtin hn f.name
    · rw [if_neg hbuiltin] at h ⊢
      obtain ⟨hne, hbytes⟩ := h.word _ List.mem_cons_self
      have hown := h.own _ List.mem_cons_self
      have hword : Counts n (if spell (.function f.id) = n then 1 else 0) (spell (.function f.id)) :=
        .word hne hbytes
      by_cases hid : f.id = id
      · rw [if_pos (hown.mpr (by rw [hid]))] at hword
        simpa [hbuiltin, hid, copies, Expr.text] using hword
      · rw [if_neg fun heq => hid (EntityKey.function.inj (hown.mp heq))] at hword
        simpa [hid, copies, Expr.text] using hword

end Spelling

section Texts

variable {spell : EntityKey → Text} {n : Text} {id k l m : Nat} {x y : Expr}

theorem counts_plain (hn : 95 ∈ n) (hx : 34 ∉ x.text ∧ 95 ∉ x.text) : Counts n 0 x.text :=
  .of_notMem hx.1 hn hx.2

theorem counts_paren (hx : Counts n k x.text) : Counts n k (Expr.paren x).text :=
  hx.enclosed (by decide) (by decide)

theorem isGap_operator (op : TokenKind) : isGap (" " ++ operator op ++ " ") = true := by
  cases op <;> decide

theorem counts_call {args : List Expr} {counts : List Nat} (hx : Counts n k x.text)
    (hargs : List.Forall₂ (Counts n) counts (Expr.textOfAll args)) :
    Counts n (k + counts.sum) (Expr.call x args).text :=
  hx.bracketed (.join (.inr rfl) hargs) (by decide) (by decide)

theorem counts_callOne (hx : Counts n k x.text) (hy : Counts n l y.text) :
    Counts n (k + l) (Expr.call x [y]).text := by
  have hargs : List.Forall₂ (Counts n) [l] (Expr.textOfAll [y]) := .cons hy .nil
  have hcall := counts_call hx hargs
  rwa [List.sum_singleton] at hcall

theorem counts_new {args : List Expr} {counts : List Nat} (hn : 95 ∈ n) (hx : Counts n 0 x.text)
    (hargs : List.Forall₂ (Counts n) counts (Expr.textOfAll args)) :
    Counts n counts.sum (Expr.new x args).text := by
  have hkeyword : Counts n 0 "new" := .of_notMem (by decide) hn (by decide)
  have hcallee : Counts n 0 ("new " ++ x.text) := hkeyword.between hx (by decide : isGap " " = true)
  have hwhole : Counts n (0 + counts.sum) (Expr.new x args).text :=
    hcallee.bracketed (.join (.inr rfl) hargs) (by decide) (by decide)
  rwa [Nat.zero_add] at hwhole

theorem counts_member (hx : Counts n k x.text) (hy : Counts n 0 y.text) :
    Counts n k (Expr.member x y).text :=
  hx.between hy (by decide)

/-- A method is written with its object, and once more with the object that it is bound to. -/
theorem counts_boundMethod (hn : 95 ∈ n) (hx : Counts n k x.text) (hy : Counts n 0 y.text) :
    Counts n (k + k) (memberValue x y false).text := by
  have hbind : Counts n 0 (Expr.code "bind").text := counts_plain hn (by decide)
  exact counts_callOne (counts_member (counts_member hx hy) hbind) hx

/-- An operation has the words of its operands, wherever its parentheses stand and whether or not it is
cut. -/
theorem counts_operation (hn : 95 ∈ n) (op : TokenKind) (signed : Bool) (type : Ty)
    (hx : Counts n k x.text) (hy : Counts n l y.text) :
    Counts n (k + l) (operation op signed x y type).text := by
  have hleft : Counts n k (if op == .power && signed then Expr.paren x else x).text := by
    split
    · exact counts_paren hx
    · exact hx
  have hbinary := hleft.between hy (isGap_operator op)
  have hwhole : Counts n (k + l) (Expr.paren (.binary (operator op)
      (if op == .power && signed then Expr.paren x else x) y)).text := by
    apply counts_paren
    simpa [Expr.text] using hbinary
  rw [operation]
  split
  · have htrunc : Counts n 0 (Expr.code "Math.trunc").text := counts_plain hn (by decide)
    have hcall := counts_callOne htrunc hwhole
    rwa [Nat.zero_add] at hcall
  · exact hwhole

theorem counts_int (hn : 95 ∈ n) (value : Int64) : Counts n 0 (Expr.int value).text := by
  have hdigits : ∀ (k : Nat) (b : UInt8), Text.isDigit b = false → b ∉ Text.ofNat k := by
    intro k b hb hmem
    rw [Text.isDigit_of_mem_ofNat hmem] at hb
    cases hb
  have hnat : ∀ k, Counts n 0 (Text.ofNat k) :=
    fun k => .of_notMem (hdigits k 34 rfl) hn (hdigits k 95 rfl)
  change Counts n 0 (Text.ofInt value.toInt)
  cases value.toInt with
  | ofNat k => exact hnat k
  | negSucc k => exact Counts.nil.between (hnat (k + 1)) (by decide : isGap "-" = true)

theorem counts_float (hn : 95 ∈ n) (value : Binary64) : Counts n 0 (Expr.float value).text := by
  have hbytes := value.numeric_text
  refine .of_notMem (fun hmem => ?_) hn fun hmem => ?_
  · rcases hbytes 34 hmem with h | h <;> revert h <;> decide
  · rcases hbytes 95 hmem with h | h <;> revert h <;> decide

theorem sum_copies (id : Nat) (es : List Typed.Expr) :
    (es.map fun e => copies (depths id e)).sum = copies (depthsOfAll id es) := by
  induction es with
  | nil => rfl
  | cons e rest ih => rw [List.map_cons, List.sum_cons, ih, depthsOfAll, copies_append]

mutual

/-- The name of a function is written for each reference to it, twice as often for each object around
the reference that a method is bound to. -/
theorem counts_namedExpr (hn : 95 ∈ n) (e : Typed.Expr) (h : SpelledApart spell n id (askExpr e)) :
    Counts n (copies (depths id e)) (namedExpr spell e).text := by
  cases e with
  | missing => exact counts_plain (x := .undefined) hn (by decide)
  | int value => exact counts_int hn value
  | float value => exact counts_float hn value
  | string value => exact .string value
  | bool value =>
    cases value with
    | false => exact counts_plain (x := .bool false) hn (by decide)
    | true => exact counts_plain (x := .bool true) hn (by decide)
  | var v => exact counts_namedVar hn h
  | function f => exact counts_namedFunction hn h
  | cls c type => exact counts_namedClass h
  | self c => exact counts_plain (x := .this) hn (by decide)
  | emptyArray type => exact counts_plain (x := .array []) hn (by decide)
  | unary op operand type =>
    have hoperand := counts_paren (counts_namedExpr hn operand h)
    have hgap : isGap (if op == .kwNot then "!" else "-") = true := by split <;> decide
    have hsigned := Counts.nil.between hoperand hgap
    rw [Nat.zero_add] at hsigned
    exact hsigned
  | binary op left right type =>
    rw [namedExpr, depths, copies_append]
    exact counts_operation hn op _ type (counts_namedExpr hn left h.left)
      (counts_namedExpr hn right h.right)
  | conditional test consequent alternate type =>
    have htest := counts_paren (counts_namedExpr hn test h.left)
    have hconsequent := counts_paren (counts_namedExpr hn consequent h.right.left)
    have halternate := counts_paren (counts_namedExpr hn alternate h.right.right)
    rw [namedExpr, depths, copies_append, copies_append, ← Nat.add_assoc]
    apply counts_paren
    exact (htest.between hconsequent (by decide : isGap " ? " = true)).between halternate
      (by decide : isGap " : " = true)
  | call callee args type =>
    have hargs := counts_namedExprs hn args
    have hcallee := counts_namedExpr hn callee
    -- A class that is called makes an object, and a method that is called keeps its own.
    cases callee with
    | cls c type =>
      have hnew := counts_new hn (counts_namedClass h.right) (hargs h.left)
      rwa [sum_copies] at hnew
    | member object field method type =>
      cases method with
      | some m =>
        have hobject := counts_namedExpr hn object h.right.left
        have hmethod := counts_member hobject (counts_namedMethod h.right.right)
        have hcall := counts_call hmethod (hargs h.left)
        rwa [sum_copies, ← copies_append] at hcall
      | none =>
        have hcall := counts_call (hcallee h.right) (hargs h.left)
        rwa [sum_copies, ← copies_append] at hcall
    | _ =>
      have hcall := counts_call (hcallee h.right) (hargs h.left)
      rwa [sum_copies, ← copies_append] at hcall
  | index object i type =>
    rw [depths, copies_append]
    exact (counts_namedExpr hn object h.left).bracketed (counts_namedExpr hn i h.right)
      (by decide : isGap "[" = true) (by decide : isGap "]" = true)
  | member object field method type =>
    cases field with
    | some f =>
      have hfield : Counts n 0 (namedField spell f).text := h.right.counts_other fun _ => by simp
      exact counts_member (counts_namedExpr hn object h.left) hfield
    | none =>
      rw [namedExpr, depths, copies_succ]
      exact counts_boundMethod hn (counts_namedExpr hn object h.left) (counts_namedMethod h.right)
  | array elements type =>
    have hjoined := Counts.join (.inl rfl) (counts_namedExprs hn elements h)
    rw [sum_copies] at hjoined
    exact hjoined.enclosed (by decide : isGap "[" = true) (by decide : isGap "]" = true)

theorem counts_namedExprs (hn : 95 ∈ n) (es : List Typed.Expr)
    (h : SpelledApart spell n id (askExprs es)) :
    List.Forall₂ (Counts n) (es.map fun e => copies (depths id e))
      (Expr.textOfAll (namedExprs spell es)) := by
  cases es with
  | nil => exact .nil
  | cons e rest =>
    exact .cons (counts_namedExpr hn e h.left) (counts_namedExprs hn rest h.right)

end

end Texts

section Names

variable {id : Nat}

/-- Whether a function is among those that requests ask a name for. -/
def Asked (id : Nat) (requests : List Request) : Prop :=
  EntityKey.function id ∈ requests.map Prod.fst

variable {rs : List Request}

theorem not_asked_append {rs' : List Request} :
    ¬ Asked id (rs ++ rs') ↔ ¬ Asked id rs ∧ ¬ Asked id rs' := by
  rw [Asked, List.map_append, List.mem_append, not_or]
  rfl

mutual

/-- An expression refers only to functions that it asks a name for. -/
theorem depths_eq_nil (e : Typed.Expr) (h : ¬ Asked id (askExpr e)) : depths id e = [] := by
  cases e with
  | function f =>
    cases f with
    | none => rfl
    | some f =>
      rw [depths, if_neg]
      intro hrefers
      simp only [refersTo, Bool.and_eq_true, Bool.not_eq_true', beq_iff_eq] at hrefers
      apply h
      simp [Asked, askExpr, askFunction, hrefers]
  | unary op operand type => exact depths_eq_nil operand h
  | binary op left right type =>
    obtain ⟨hleft, hright⟩ := not_asked_append.mp h
    rw [depths, depths_eq_nil left hleft, depths_eq_nil right hright, List.append_nil]
  | conditional test consequent alternate type =>
    obtain ⟨htest, hrest⟩ := not_asked_append.mp h
    obtain ⟨hconsequent, halternate⟩ := not_asked_append.mp hrest
    rw [depths, depths_eq_nil test htest, depths_eq_nil consequent hconsequent,
      depths_eq_nil alternate halternate, List.append_nil, List.append_nil]
  | call callee args type =>
    have hcallee := depths_eq_nil callee
    have hargs := depthsOfAll_eq_nil args
    cases callee with
    | member object field method type =>
      cases method with
      | some m =>
        obtain ⟨hasked, hrest⟩ := not_asked_append.mp h
        obtain ⟨hobject, -⟩ := not_asked_append.mp hrest
        rw [depths, depths_eq_nil object hobject, hargs hasked, List.append_nil]
      | none =>
        obtain ⟨hasked, hrest⟩ := not_asked_append.mp h
        exact List.append_eq_nil_iff.mpr ⟨hcallee hrest, hargs hasked⟩
    | _ =>
      obtain ⟨hasked, hrest⟩ := not_asked_append.mp h
      exact List.append_eq_nil_iff.mpr ⟨hcallee hrest, hargs hasked⟩
  | index object i type =>
    obtain ⟨hobject, hindex⟩ := not_asked_append.mp h
    rw [depths, depths_eq_nil object hobject, depths_eq_nil i hindex, List.append_nil]
  | member object field method type =>
    cases field with
    | some f => exact depths_eq_nil object (not_asked_append.mp h).1
    | none => rw [depths, depths_eq_nil object (not_asked_append.mp h).1, List.map_nil]
  | array elements type => exact depthsOfAll_eq_nil elements h
  | _ => rfl

theorem depthsOfAll_eq_nil (es : List Typed.Expr) (h : ¬ Asked id (askExprs es)) :
    depthsOfAll id es = [] := by
  cases es with
  | nil => rfl
  | cons e rest =>
    obtain ⟨hfirst, hrest⟩ := not_asked_append.mp h
    rw [depthsOfAll, depths_eq_nil e hfirst, depthsOfAll_eq_nil rest hrest, List.append_nil]

end

/-- Two entities have different names. -/
theorem key_inj_numbered {key key' : EntityKey} {n : Text} (h : (numbered rs).lookup key = some n)
    (h' : (numbered rs).lookup key' = some n) : key = key' := by
  have hnodup : ((numbered rs).map fun entry => ordinal entry.2).Nodup := by
    rw [ordinals_numbered]
    exact List.nodup_range'
  have heq := List.inj_on_of_nodup_map hnodup (mem_of_lookup h) (mem_of_lookup h') rfl
  exact congrArg Prod.fst heq

theorem firstRequests_sublist (rs : List Request) : (firstRequests rs).Sublist rs := by
  induction rs with
  | nil => exact .slnil
  | cons r rest ih => exact (List.filter_sublist.trans ih).cons_cons r

/-- An entity that is asked for gets the name that a request has for it, with a number. -/
theorem lookup_numbered {key : EntityKey} (h : key ∈ rs.map Prod.fst) :
    ∃ source k, (key, source) ∈ rs ∧
      (numbered (firstRequests rs)).lookup key = some (source ++ "_" ++ Text.ofNat k) := by
  have hkey : key ∈ (numbered (firstRequests rs)).map Prod.fst := by
    rwa [keys_numbered, mem_keys_firstRequests]
  obtain ⟨n, hn⟩ := Option.isSome_iff_exists.mp (Names.lookup_isSome_iff.mpr hkey)
  obtain ⟨i, hi, heq⟩ := List.mem_mapIdx.mp (mem_of_lookup hn)
  obtain ⟨hfst, hsnd⟩ := Prod.mk.inj heq
  refine ⟨(firstRequests rs)[i].2, i + 1, ?_, by rw [hn, ← hsnd]⟩
  rw [← hfst]
  exact (firstRequests_sublist rs).subset (List.getElem_mem hi)

/-- Entities whose names in the source are words are spelled by words, each by its own. -/
theorem spelledApart_numbered {requests : List Request} {n : Text} (hsubset : requests ⊆ rs)
    (hwords : ∀ r ∈ rs, r.2.all isWordByte = true)
    (hn : (numbered (firstRequests rs)).lookup (.function id) = some n) :
    SpelledApart (nameIn (numbered (firstRequests rs))) n id requests := by
  refine ⟨fun r hr => ?_, fun r hr => ?_⟩ <;>
    obtain ⟨source, k, hmem, hlookup⟩ := lookup_numbered (List.mem_map_of_mem (hsubset hr)) <;>
    rw [nameIn_eq hlookup]
  · refine ⟨by simp [show Text.ofString "_" = [95] from rfl], fun b hb => ?_⟩
    rw [List.append_assoc, List.mem_append, List.mem_append] at hb
    rcases hb with hb | hb | hb
    · exact List.all_eq_true.mp (hwords _ hmem) b hb
    · cases List.mem_singleton.mp hb
      rfl
    · exact isWordByte_of_isDigit (Text.isDigit_of_mem_ofNat hb)
  · constructor
    · rintro rfl
      exact key_inj_numbered hlookup hn
    · intro hkey
      rw [hkey, hn] at hlookup
      exact (Option.some.inj hlookup).symm

/-- A function that an expression refers to has a name, and that name is a word of the text of the
expression for each reference, twice as often for each object around the reference whose method is
selected without being called. So no reference is left out, and each is written exactly once if no such
object has one, and only then. The words are counted whatever names were asked for before; where the
text has tokens and the name is one, as many tokens are that name. -/
theorem expr_occurrences (earlier : List Request) (e : Typed.Expr) (hreferred : 0 < references id e)
    (hwords : ∀ r ∈ earlier ++ askExpr e, r.2.all isWordByte = true) :
    ∃ n, (expr e (Names.requestAll [] earlier)).2.lookup (.function id) = some n ∧
      (words (expr e (Names.requestAll [] earlier)).1.text).count n = copies (depths id e) ∧
      (∀ ts, Lexes (expr e (Names.requestAll [] earlier)).1.text ts → IsIdentifier n →
        ts.count (.name n) = copies (depths id e)) ∧
      (depths id e).length = references id e ∧ references id e ≤ copies (depths id e) ∧
      (copies (depths id e) = references id e ↔ ∀ d ∈ depths id e, d = 0) := by
  have hlength : (depths id e).length = references id e := length_depths id e
  have hasked : Asked id (askExpr e) := by
    by_contra hnot
    rw [← hlength, depths_eq_nil e hnot] at hreferred
    cases hreferred
  have hnames : (expr e (Names.requestAll [] earlier)).2 =
      numbered (firstRequests (earlier ++ askExpr e)) := by
    rw [← requestAll_nil, Names.requestAll_append]
    exact (expr_follows e).names _
  have hkey : EntityKey.function id ∈ (earlier ++ askExpr e).map Prod.fst := by
    rw [List.map_append]
    exact List.mem_append_right _ hasked
  obtain ⟨source, k, -, hlookup⟩ := lookup_numbered hkey
  have hbar : 95 ∈ source ++ Text.ofString "_" ++ Text.ofNat k :=
    List.mem_append_left _ (List.mem_append_right _ List.mem_cons_self)
  have htext : (expr e (Names.requestAll [] earlier)).1 =
      namedExpr (nameIn (numbered (firstRequests (earlier ++ askExpr e)))) e := by
    apply (expr_follows e).result
    rw [hnames]
    exact fun key n hn => nameIn_eq hn
  have hcounts := counts_namedExpr hbar e
    (spelledApart_numbered (List.subset_append_right earlier _) hwords hlookup)
  refine ⟨_, hnames ▸ hlookup, by rw [htext, hcounts.count], fun ts hlexes hn => ?_, hlength, ?_, ?_⟩
  · rw [hlexes.count_name hn.word, htext, hcounts.count]
  · rw [← hlength]
    exact length_le_copies _
  · rw [← hlength]
    exact copies_eq_length_iff _

end Names

section Examples

/-- A method that is selected from the result of a call. -/
private def refilling : Text :=
  "order Cup \x7b item fill() -> pump \x7b serve 1 \x7d \x7d " ++
    "item make() -> Cup \x7b remake 1 serve Cup() \x7d let fill = make().fill"

private def refillingTree : Tree.Program :=
  let column (n : Int) : Pos := ⟨1, n⟩
  [.cls "Cup" []
      [.mk "fill" [] (some (.named "pump" (column 28)))
        [.ret (some (.int "1" (column 41))) (column 35)] (column 33) (column 18)] (column 7),
    .function (.mk "make" [] (some (.named "Cup" (column 62)))
      [.print (.int "1" (column 75)) (column 68),
        .ret (some (.call (.name "Cup" (column 83)) [] (column 86))) (column 77)]
      (column 66) (column 52)),
    .declare "fill" false
      (.member (.call (.name "make" (column 102)) [] (column 106)) "fill" (column 109)) (column 95)]

private def refillingCup : ClassRef := ⟨9, "Cup"⟩

private def refillingFill : PeakLang.Method := ⟨9, 0, "fill", some ⟨[], .pump⟩⟩

private def refillingMake : Function := ⟨10, "make", some ⟨[], .cls refillingCup⟩, false⟩

private def refillingCall : Typed.Expr := .call (.function (some refillingMake)) [] (.cls refillingCup)

private def refillingMember : Typed.Expr :=
  .member refillingCall none (some refillingFill) (.function [] .pump)

private def refillingVariable : Variable := ⟨11, "fill", .function [] .pump, false, false⟩

private def refilled : Typed.Program :=
  [.cls (some (Class.ofMembers refillingCup [] [("fill", some ⟨[], .pump⟩)]))
      [.mk (some refillingFill) [] [.ret (.int 1)]],
    .function (some refillingMake) []
      [.print (.int 1),
        .ret (.call (.cls (some refillingCup) (.function [] (.cls refillingCup))) [] (.cls refillingCup))],
    .declare (some refillingVariable) refillingMember]

private def refillingQuotient : Typed.Expr :=
  .binary .slash (.int 8) (.call refillingMember [] .pump) .pump

/-- A method that is called on the result of a call: the call is written once. -/
theorem expr_occurrences_refilling :
    0 < references 10 refillingQuotient ∧
      (∀ r ∈ [] ++ askExpr refillingQuotient, r.2.all isWordByte = true) ∧
      (expr refillingQuotient []).1.text = "Math.trunc((8 / make_1().fill_2()))" ∧
      (words "Math.trunc((8 / make_1().fill_2()))").count (Text.ofString "make_1") =
        references 10 refillingQuotient := by
  have hreferred : 0 < references 10 refillingQuotient := by decide
  have hwords : ∀ r ∈ [] ++ askExpr refillingQuotient, r.2.all isWordByte = true := by decide
  obtain ⟨n, hname, hcount, -, -, -, hiff⟩ := expr_occurrences [] refillingQuotient hreferred hwords
  obtain rfl : Text.ofString "make_1" = n := Option.some.inj hname
  exact ⟨hreferred, hwords, rfl, hcount.trans (hiff.mpr (by decide))⟩

private theorem parse_refilling : Tree.Parser.parse refilling = ⟨refillingTree, []⟩ := by
  decide +kernel

/-- A method that is selected without being called: the only call in its object is written twice. -/
theorem words_detached_refilling :
    Tree.Parser.parse refilling = ⟨refillingTree, []⟩ ∧
      Analysis.analyze refillingTree = .ok refilled ∧
      refilled.getLast? = some (.declare (some refillingVariable) refillingMember) ∧
      (expr refillingMember (givenNames refilled)).1.text = "make_3().fill_2.bind(make_3())" ∧
      references 10 refillingMember = 1 ∧
      (words "make_3().fill_2.bind(make_3())").count (Text.ofString "make_3") = 2 :=
  ⟨parse_refilling, rfl, rfl, rfl, rfl, by decide⟩

end Examples

end PeakLang.Js
