import PeakLang.Proofs.Analysis.Closed
import PeakLang.Proofs.Text.Rune
import PeakLang.Proofs.Token.Lexeme

namespace PeakLang.Ty

section Signs

/-- The bytes that types are written with besides names. -/
def isSign (b : UInt8) : Bool := ("[](),->?" : Text).contains b

/-- Whether a text is a name between signs. -/
structure IsPlain (w : Text) : Prop where
  ne_nil : w ≠ []
  unsigned : ∀ b ∈ w, isSign b = false

theorem isSign_of_le {b : UInt8} (h : 128 ≤ b.toNat) : isSign b = false := by
  refine Bool.eq_false_iff.mpr fun hsign => ?_
  have hmem : b ∈ ("[](),->?" : Text) := List.contains_iff_mem.mp hsign
  have hall : ("[](),->?" : Text).all (fun b => b.toNat < 128) = true := by decide
  have hlt := List.all_eq_true.mp hall b hmem
  rw [decide_eq_true_eq] at hlt
  omega

theorem isSign_ascii : ∀ n < 128, Scan.inWord (Char.ofNat n) = true → isSign (UInt8.ofNat n) = false := by
  decide

theorem isSign_of_inWord {c : Char} (hc : Scan.inWord c = true) {b : UInt8}
    (hb : b ∈ String.utf8EncodeChar c) : isSign b = false := by
  by_cases hwide : 0x80 ≤ c.val.toNat
  · exact isSign_of_le (Rune.le_of_mem_utf8EncodeChar hwide hb)
  · rw [Rune.utf8EncodeChar_of_lt (by omega), List.mem_singleton] at hb
    rw [hb]
    apply isSign_ascii _ (by omega)
    rwa [show Char.ofNat c.val.toNat = c from Char.ofNat_toNat c]

theorem IsPlain.of_isName {name : Text} (h : Lexeme.IsName name) : IsPlain name := by
  obtain ⟨cs, rfl, ⟨c, hc, -⟩, hword, -⟩ := h
  constructor
  · intro hnil
    obtain ⟨more, rfl⟩ := List.head?_eq_some_iff.mp hc
    have hbytes := (List.append_eq_nil_iff.mp hnil).1
    exact String.utf8EncodeChar_ne_nil hbytes
  · intro b hb
    obtain ⟨r, hr, hb⟩ := List.mem_flatMap.mp hb
    obtain ⟨c, hc, rfl⟩ := List.mem_map.mp hr
    exact isSign_of_inWord (hword c hc) hb

theorem isPlain_prim (p : Prim) : IsPlain p.name := by
  have hall : p.name ≠ [] ∧ p.name.all (fun b => !isSign b) = true := by
    cases p <;> decide
  refine ⟨hall.1, fun b hb => ?_⟩
  simpa using List.all_eq_true.mp hall.2 b hb

/-- A name ends where a sign follows. -/
theorem IsPlain.append_inj {w w' x y : Text} (hw : IsPlain w) (hw' : IsPlain w')
    (hx : ∀ b ∈ x.head?, isSign b = true) (hy : ∀ b ∈ y.head?, isSign b = true)
    (h : w ++ x = w' ++ y) : w = w' ∧ x = y := by
  have hcut {w x : Text} (hw : IsPlain w) (hx : ∀ b ∈ x.head?, isSign b = true) :
      (w ++ x).takeWhile (fun b => !isSign b) = w := by
    rw [List.takeWhile_append_of_pos]
    · cases x with
      | nil => exact List.append_nil w
      | cons b x =>
        rw [List.takeWhile_cons_of_neg, List.append_nil]
        simp [hx b rfl]
    · intro b hb
      simp [hw.unsigned b hb]
  have hsame : w = w' := by
    rw [← hcut hw hx, h, hcut hw' hy]
  subst hsame
  exact ⟨rfl, List.append_cancel_left h⟩

/-- A name does not start with a sign. -/
theorem IsPlain.append_ne_cons {w x y : Text} {b : UInt8} (hw : IsPlain w) (hb : isSign b = true) :
    w ++ x ≠ b :: y := by
  obtain ⟨first, rest, rfl⟩ := List.exists_cons_of_ne_nil hw.ne_nil
  intro h
  have hfirst := hw.unsigned first List.mem_cons_self
  rw [(List.cons.inj h).1, hb] at hfirst
  cases hfirst

end Signs

section Names

/-- Classes that are told apart by their names, from each other and from the built-in types. -/
structure ToldApart (classes : List ClassRef) : Prop where
  isName : ∀ c ∈ classes, Lexeme.IsName c.name
  distinct : ∀ c ∈ classes, ∀ d ∈ classes, c ≠ d → c.name ≠ d.name
  ne_prim : ∀ c ∈ classes, ∀ p : Prim, c.name ≠ p.name

/-- Whether a type is known in all of its parts, and names only some classes. -/
structure Names (classes : List ClassRef) (t : Ty) : Prop where
  known : t.known = true
  refs : ∀ ref ∈ t.refs, ref ∈ classes

variable {classes : List ClassRef} {a b : Ty}

theorem Names.ofArray (h : Names classes (array a)) : Names classes a := ⟨h.known, h.refs⟩

theorem Names.ofFunction {params : List Ty} {result : Ty}
    (h : Names classes (function params result)) :
    (∀ p ∈ params, Names classes p) ∧ Names classes result := by
  obtain ⟨hknown, hrefs⟩ := h
  rw [Ty.known, Bool.and_eq_true, knownAll_iff] at hknown
  rw [Ty.refs, List.forall_mem_append] at hrefs
  refine ⟨fun p hp => ⟨hknown.1 p hp, fun ref href => hrefs.1 ref ?_⟩, hknown.2, hrefs.2⟩
  clear hknown hrefs
  induction params with
  | nil => cases hp
  | cons q rest ih =>
    rw [refsOfAll, List.mem_append]
    obtain rfl | hp := List.mem_cons.mp hp
    · exact .inl href
    · exact .inr (ih hp)

/-- Whether a type is written as a name. -/
def isName : Ty → Bool
  | prim _ | cls _ => true
  | _ => false

theorem isPlain_describe (hclasses : ToldApart classes) (ha : Names classes a)
    (hname : a.isName = true) : IsPlain a.describe := by
  cases a with
  | prim p => exact isPlain_prim p
  | cls c => exact .of_isName (hclasses.isName c (ha.refs c List.mem_cons_self))
  | untyped | array | optional | function => cases hname

theorem prim_name_inj {p q : Prim} (h : p.name = q.name) : p = q := by
  cases p <;> cases q <;> first | rfl | exact absurd h (by decide)

/-- Types that are written as the same name are the same. -/
theorem eq_of_describe_name (hclasses : ToldApart classes) (ha : Names classes a)
    (hb : Names classes b) (hnameA : a.isName = true) (hnameB : b.isName = true)
    (h : a.describe = b.describe) : a = b := by
  cases a with
  | prim p =>
    cases b with
    | prim q => rw [prim_name_inj h]
    | cls d => exact absurd h.symm (hclasses.ne_prim d (hb.refs d List.mem_cons_self) p)
    | untyped | array | optional | function => cases hnameB
  | cls c =>
    have hc := ha.refs c List.mem_cons_self
    cases b with
    | prim q => exact absurd h (hclasses.ne_prim c hc q)
    | cls d =>
      have hd := hb.refs d List.mem_cons_self
      by_cases hsame : c = d
      · rw [hsame]
      · exact absurd h (hclasses.distinct c hc d hd hsame)
    | untyped | array | optional | function => cases hnameB
  | untyped | array | optional | function => cases hnameA

end Names

section Stems

/-- A type without the marks that make it optional. -/
def stem : Ty → Ty
  | optional base => base.stem
  | t => t

/-- How many marks make a type optional. -/
def marks : Ty → Nat
  | optional base => base.marks + 1
  | _ => 0

/-- How a type is written in front of a mark. -/
def operand (t : Ty) : Text := if t.isFunction then 40 :: (t.describe ++ [41]) else t.describe

theorem describe_optional (t : Ty) : describe (optional t) = t.operand ++ [63] := by
  rw [describe, operand]
  split
  case isTrue =>
    change 40 :: (t.describe ++ [41, 63]) = 40 :: (t.describe ++ [41]) ++ [63]
    simp
  case isFalse => rfl

theorem operand_of_not_isFunction {t : Ty} (h : t.isFunction = false) : t.operand = t.describe := by
  rw [operand, h, if_neg Bool.false_ne_true]

theorem stem_ne_optional (t base : Ty) : t.stem ≠ optional base := by
  cases t with
  | optional t => exact stem_ne_optional t base
  | _ => exact nofun

/-- The marks of a type follow its stem. -/
theorem operand_eq (t : Ty) : t.operand = t.stem.operand ++ List.replicate t.marks 63 := by
  cases t with
  | optional t =>
    rw [operand_of_not_isFunction rfl, describe_optional, operand_eq t, stem, marks,
      List.append_assoc, List.replicate_succ']
  | _ => exact (List.append_nil _).symm

theorem eq_of_stem_eq {a b : Ty} (hstem : a.stem = b.stem) (hmarks : a.marks = b.marks) : a = b := by
  cases a with
  | optional a =>
    cases b with
    | optional b =>
      rw [eq_of_stem_eq (a := a) (b := b) hstem (Nat.succ.inj hmarks)]
    | _ => cases hmarks
  | _ =>
    cases b with
    | optional b => cases hmarks
    | _ => exact hstem

theorem sizeOf_stem_le (t : Ty) : sizeOf t.stem ≤ sizeOf t := by
  cases t with
  | optional t =>
    have hle := sizeOf_stem_le t
    rw [stem, optional.sizeOf_spec]
    omega
  | _ => exact Nat.le_refl _

theorem sizeOf_stem_lt {t : Ty} (hnot : t.isFunction = false) (hstem : t.stem.isFunction = true) :
    sizeOf t.stem < sizeOf t := by
  cases t with
  | optional t =>
    have hle := sizeOf_stem_le t
    rw [stem, optional.sizeOf_spec]
    omega
  | function => cases hnot
  | _ => cases hstem

theorem Names.stem {classes : List ClassRef} {t : Ty} (h : Names classes t) :
    Names classes t.stem := by
  cases t with
  | optional t => exact Names.stem (t := t) ⟨h.known, h.refs⟩
  | _ => exact h

end Stems

section Apart

/-- What may follow a type. -/
def Ends (rest : Text) : Prop := ∀ b ∈ rest.head?, b ∈ ("])," : Text)

/-- What may follow a type that may be marked as optional. -/
def EndsOperand (rest : Text) : Prop := ∀ b ∈ rest.head?, b ∈ ("?])," : Text)

/-- Two types are written apart: no text starts with both of them, unless they are the same type. -/
def Apart (a b : Ty) : Prop :=
  ∀ x y, Ends x → Ends y → a.describe ++ x = b.describe ++ y → a = b ∧ x = y

/-- Two types are written apart in front of marks. -/
def OperandsApart (a b : Ty) : Prop :=
  ∀ x y, EndsOperand x → EndsOperand y → a.operand ++ x = b.operand ++ y → a = b ∧ x = y

variable {classes : List ClassRef} {a b result result' : Ty} {params params' : List Ty} {rest x y : Text}

theorem Apart.symm (h : Apart a b) : Apart b a := by
  intro x y hx hy heq
  obtain ⟨hsame, hrest⟩ := h y x hy hx heq.symm
  exact ⟨hsame.symm, hrest.symm⟩

theorem Ends.cons {b : UInt8} (h : b ∈ ("])," : Text)) : Ends (b :: rest) := by
  intro b' hb'
  rwa [← Option.some.inj hb']

theorem EndsOperand.isSign (h : EndsOperand rest) : ∀ b ∈ rest.head?, isSign b = true := by
  have hall : ("?])," : Text).all Ty.isSign = true := by decide
  intro b hb
  exact List.all_eq_true.mp hall b (h b hb)

theorem Ends.replicate (h : Ends rest) (n : Nat) : EndsOperand (List.replicate n 63 ++ rest) := by
  intro b hb
  cases n with
  | zero => exact List.mem_cons_of_mem _ (h b hb)
  | succ n =>
    obtain rfl := Option.some.inj hb
    exact List.mem_cons_self

/-- Marks end where something else follows. -/
theorem replicate_append_inj {m n : Nat} (hx : Ends x) (hy : Ends y)
    (h : List.replicate m (63 : UInt8) ++ x = List.replicate n 63 ++ y) : m = n ∧ x = y := by
  have hmark {rest : Text} (hrest : Ends rest) (more : Text) : rest ≠ 63 :: more := by
    rintro rfl
    exact absurd (hrest 63 rfl) (by decide)
  induction m generalizing n with
  | zero =>
    cases n with
    | zero => exact ⟨rfl, h⟩
    | succ n => exact absurd h (hmark hx _)
  | succ m ih =>
    cases n with
    | zero => exact absurd h.symm (hmark hy _)
    | succ n =>
      obtain ⟨hsame, hrest⟩ := ih (List.cons.inj h).2
      exact ⟨congrArg Nat.succ hsame, hrest⟩

theorem OperandsApart.names (hclasses : ToldApart classes) (ha : Names classes a)
    (hb : Names classes b) (hnameA : a.isName = true) (hnameB : b.isName = true) :
    OperandsApart a b := by
  intro x y hx hy h
  have hoperand {t : Ty} (ht : t.isName = true) : t.operand = t.describe := by
    apply operand_of_not_isFunction
    cases t with
    | function => cases ht
    | _ => rfl
  rw [hoperand hnameA, hoperand hnameB] at h
  obtain ⟨hname, hrest⟩ := (isPlain_describe hclasses ha hnameA).append_inj
    (isPlain_describe hclasses hb hnameB) hx.isSign hy.isSign h
  exact ⟨eq_of_describe_name hclasses ha hb hnameA hnameB hname, hrest⟩

theorem OperandsApart.arrays (h : Apart a b) : OperandsApart (array a) (array b) := by
  intro x y _ _ heq
  have hinside : a.describe ++ 93 :: x = b.describe ++ 93 :: y := by
    change 91 :: (a.describe ++ [93]) ++ x = 91 :: (b.describe ++ [93]) ++ y at heq
    simpa using heq
  obtain ⟨rfl, hrest⟩ := h _ _ (.cons (by decide)) (.cons (by decide)) hinside
  exact ⟨rfl, (List.cons.inj hrest).2⟩

theorem OperandsApart.functions (ha : a.isFunction = true) (hb : b.isFunction = true) (h : Apart a b) :
    OperandsApart a b := by
  intro x y _ _ heq
  have hinside : a.describe ++ 41 :: x = b.describe ++ 41 :: y := by
    rw [operand, if_pos ha, operand, if_pos hb] at heq
    simpa using heq
  obtain ⟨rfl, hrest⟩ := h _ _ (.cons (by decide)) (.cons (by decide)) hinside
  exact ⟨rfl, (List.cons.inj hrest).2⟩

/-- Stems are told apart by how they start, and those that start alike by their parts. -/
theorem OperandsApart.stems (hclasses : ToldApart classes) (ha : Names classes a)
    (hb : Names classes b) (hstemA : ∀ t, a ≠ optional t) (hstemB : ∀ t, b ≠ optional t)
    (harrays : ∀ u v, a = array u → b = array v → Apart u v)
    (hfunctions : a.isFunction = true → b.isFunction = true → Apart a b) : OperandsApart a b := by
  have hname {t : Ty} (ht : Names classes t) (hn : t.isName = true) (x : Text) {c : UInt8} {y : Text}
      (hc : isSign c = true) : t.describe ++ x ≠ c :: y :=
    (isPlain_describe hclasses ht hn).append_ne_cons hc
  cases a with
  | untyped => exact absurd ha.known Bool.false_ne_true
  | optional t => exact absurd rfl (hstemA t)
  | prim | cls =>
    cases b with
    | untyped => exact absurd hb.known Bool.false_ne_true
    | optional t => exact absurd rfl (hstemB t)
    | prim | cls => exact .names hclasses ha hb rfl rfl
    | array | function =>
      intro x y _ _ heq
      exact absurd heq (hname ha rfl x (by decide))
  | array u =>
    cases b with
    | untyped => exact absurd hb.known Bool.false_ne_true
    | optional t => exact absurd rfl (hstemB t)
    | prim | cls =>
      intro x y _ _ heq
      exact absurd heq.symm (hname hb rfl y (by decide))
    | array v => exact .arrays (harrays u v rfl rfl)
    | function =>
      intro x y _ _ heq
      exact absurd (List.cons.inj heq).1 (by decide)
  | function =>
    cases b with
    | untyped => exact absurd hb.known Bool.false_ne_true
    | optional t => exact absurd rfl (hstemB t)
    | prim | cls =>
      intro x y _ _ heq
      exact absurd heq.symm (hname hb rfl y (by decide))
    | array =>
      intro x y _ _ heq
      exact absurd (List.cons.inj heq).1 (by decide)
    | function => exact .functions rfl rfl (hfunctions rfl rfl)

/-- Types that are no functions are told apart by their stems and the number of their marks. -/
theorem Apart.of_stems (ha : a.isFunction = false) (hb : b.isFunction = false)
    (h : OperandsApart a.stem b.stem) : Apart a b := by
  intro x y hx hy heq
  rw [← operand_of_not_isFunction ha, ← operand_of_not_isFunction hb, operand_eq a, operand_eq b,
    List.append_assoc, List.append_assoc] at heq
  obtain ⟨hstem, hrest⟩ := h _ _ (hx.replicate _) (hy.replicate _) heq
  obtain ⟨hmarks, hrest⟩ := replicate_append_inj hx hy hrest
  exact ⟨eq_of_stem_eq hstem hmarks, hrest⟩

end Apart

section Functions

variable {classes : List ClassRef} {result result' : Ty} {params params' : List Ty} {x y : Text}

/-- The parameters after the first, as they are written. -/
def further (params : List Ty) : Text := params.flatMap fun p => 44 :: p.describe

/-- The parameters of a function, as they are written. -/
def listed (params : List Ty) : Text := Text.join "," (describeAll params)

theorem describe_function (params : List Ty) (result : Ty) :
    describe (function params result) = 40 :: (listed params ++ 41 :: 45 :: 62 :: result.describe) := by
  change 40 :: listed params ++ [41, 45, 62] ++ result.describe = _
  simp

theorem listed_cons (p : Ty) (params : List Ty) :
    listed (p :: params) = p.describe ++ further params := by
  induction params generalizing p with
  | nil => simp [listed, further, describeAll, Text.join, List.intercalate]
  | cons q params ih =>
    have hrest : listed (p :: q :: params) = p.describe ++ 44 :: listed (q :: params) := by
      simp only [listed, describeAll, Text.join, List.intercalate, List.intersperse]
      simp
      rfl
    rw [hrest, ih, further, further, List.flatMap_cons, List.cons_append]

theorem ends_further (params : List Ty) (x : Text) : Ends (further params ++ 41 :: x) := by
  cases params with
  | nil => exact .cons (by decide)
  | cons p params => exact .cons (by decide)

/-- A type does not start with what may follow one. -/
theorem describe_append_ne (hclasses : ToldApart classes) {t : Ty} (ht : Names classes t) (x : Text)
    {c : UInt8} (hc : c ∈ ("])," : Text)) (y : Text) : t.describe ++ x ≠ c :: y := by
  have hsign : ("])," : Text).all (fun c => isSign c && c != 91 && c != 40) = true := by decide
  have hc := List.all_eq_true.mp hsign c hc
  simp only [Bool.and_eq_true, bne_iff_ne] at hc
  obtain ⟨⟨hsign, hbracket⟩, hparenthesis⟩ := hc
  cases t with
  | untyped => exact absurd ht.known Bool.false_ne_true
  | prim | cls => exact (isPlain_describe hclasses ht rfl).append_ne_cons hsign
  | array => exact fun heq => hbracket (List.cons.inj heq).1.symm
  | function => exact fun heq => hparenthesis (List.cons.inj heq).1.symm
  | optional t =>
    rw [describe_optional, List.append_assoc]
    cases hfunction : t.isFunction with
    | true =>
      rw [operand, if_pos hfunction]
      exact fun heq => hparenthesis (List.cons.inj heq).1.symm
    | false =>
      rw [operand_of_not_isFunction hfunction]
      exact describe_append_ne hclasses (t := t) ⟨ht.known, ht.refs⟩ _ ‹_› y

theorem further_inj (h : ∀ p ∈ params, ∀ q ∈ params', Apart p q)
    (heq : further params ++ 41 :: x = further params' ++ 41 :: y) : params = params' ∧ x = y := by
  induction params generalizing params' with
  | nil =>
    cases params' with
    | nil => exact ⟨rfl, (List.cons.inj heq).2⟩
    | cons q params' => exact absurd (List.cons.inj heq).1 (by decide)
  | cons p params ih =>
    cases params' with
    | nil => exact absurd (List.cons.inj heq).1 (by decide)
    | cons q params' =>
      have hfirst : p.describe ++ (further params ++ 41 :: x) =
          q.describe ++ (further params' ++ 41 :: y) := by
        simpa [further] using heq
      obtain ⟨rfl, hrest⟩ := h p List.mem_cons_self q List.mem_cons_self _ _ (ends_further _ _)
        (ends_further _ _) hfirst
      have hmore := ih (fun p hp q hq =>
        h p (List.mem_cons_of_mem _ hp) q (List.mem_cons_of_mem _ hq)) hrest
      exact ⟨congrArg (p :: ·) hmore.1, hmore.2⟩

theorem listed_inj (hclasses : ToldApart classes) (hparams : ∀ p ∈ params, Names classes p)
    (hparams' : ∀ q ∈ params', Names classes q) (h : ∀ p ∈ params, ∀ q ∈ params', Apart p q)
    (heq : listed params ++ 41 :: x = listed params' ++ 41 :: y) : params = params' ∧ x = y := by
  cases params with
  | nil =>
    cases params' with
    | nil => exact ⟨rfl, (List.cons.inj heq).2⟩
    | cons q params' =>
      rw [listed_cons, List.append_assoc] at heq
      have hq := hparams' q List.mem_cons_self
      exact absurd heq.symm (describe_append_ne hclasses hq _ (by decide) x)
  | cons p params =>
    cases params' with
    | nil =>
      rw [listed_cons, List.append_assoc] at heq
      have hp := hparams p List.mem_cons_self
      exact absurd heq (describe_append_ne hclasses hp _ (by decide) y)
    | cons q params' =>
      -- with a comma in front, all parameters are written alike
      refine further_inj h ?_
      rw [listed_cons, listed_cons] at heq
      simpa [further] using heq

theorem Apart.functions (hclasses : ToldApart classes) (ha : Names classes (function params result))
    (hb : Names classes (function params' result'))
    (hparams : ∀ p ∈ params, ∀ q ∈ params', Apart p q) (hresult : Apart result result') :
    Apart (function params result) (function params' result') := by
  intro x y hx hy heq
  simp only [describe_function, List.cons_append, List.append_assoc, List.cons.injEq,
    true_and] at heq
  obtain ⟨rfl, hrest⟩ := listed_inj hclasses ha.ofFunction.1 hb.ofFunction.1 hparams heq
  simp only [List.cons.injEq, true_and] at hrest
  obtain ⟨rfl, rfl⟩ := hresult x y hx hy hrest
  exact ⟨rfl, rfl⟩

/-- A function is not written like an optional type: after its parameters an arrow follows, and after
the parentheses around an optional function a mark. -/
theorem Apart.function_of_not_isFunction (hclasses : ToldApart classes) {b : Ty}
    (hb : Names classes b) (hnot : b.isFunction = false)
    (hparams : b.stem.isFunction = true → ∀ p ∈ params, Apart p b.stem) :
    Apart (function params result) b := by
  intro x y hx hy heq
  exfalso
  rw [describe_function, ← operand_of_not_isFunction hnot, operand_eq, List.append_assoc] at heq
  have hstem := hb.stem
  have hne := stem_ne_optional b
  cases hkind : b.stem with
  | untyped =>
    rw [hkind] at hstem
    exact absurd hstem.known Bool.false_ne_true
  | optional t => exact hne t hkind
  | prim | cls =>
    rw [hkind] at hstem heq
    exact (isPlain_describe hclasses hstem rfl).append_ne_cons (by decide) heq.symm
  | array =>
    rw [hkind] at heq
    exact absurd (List.cons.inj heq).1 (by decide)
  | function ps r =>
    obtain ⟨n, hmarks⟩ : ∃ n, b.marks = n + 1 := by
      cases b with
      | optional t => exact ⟨_, rfl⟩
      | function => cases hnot
      | _ => cases hkind
    have hinside : listed params ++ 41 :: 45 :: 62 :: (result.describe ++ x) =
        (function ps r).describe ++ 41 :: 63 :: (List.replicate n 63 ++ y) := by
      rw [hkind, hmarks, operand, if_pos (show (function ps r).isFunction = true from rfl)] at heq
      simpa [List.replicate_succ] using heq
    cases params with
    | nil =>
      rw [describe_function] at hinside
      exact absurd (List.cons.inj hinside).1 (by decide)
    | cons p params =>
      rw [listed_cons, List.append_assoc] at hinside
      have hfirst := hparams (by rw [hkind]; rfl) p List.mem_cons_self
      rw [hkind] at hfirst
      obtain ⟨-, hrest⟩ := hfirst _ _ (ends_further _ _) (.cons (by decide)) hinside
      cases params with
      | nil => exact absurd (List.cons.inj (List.cons.inj hrest).2).1 (by decide)
      | cons q params => exact absurd (List.cons.inj hrest).1 (by decide)

end Functions

/-- Types that are told apart by their names are written apart. -/
theorem Names.apart {classes : List ClassRef} (hclasses : ToldApart classes) {a b : Ty}
    (ha : Names classes a) (hb : Names classes b) : Apart a b := by
  generalize hsize : sizeOf a = size
  induction size using Nat.strongRecOn generalizing a b with
  | ind size ih =>
    have hpart {c d : Ty} (hlt : sizeOf c < sizeOf a) (hc : Names classes c) (hd : Names classes d) :
        Apart c d := ih (sizeOf c) (hsize ▸ hlt) hc hd rfl
    have hbase {u : Ty} (hu : a.stem = array u) : sizeOf u < sizeOf a := by
      have hle := sizeOf_stem_le a
      rw [hu, array.sizeOf_spec] at hle
      omega
    cases hfunctionA : a.isFunction with
    | false =>
      cases hfunctionB : b.isFunction with
      | false =>
        apply Apart.of_stems hfunctionA hfunctionB
        apply OperandsApart.stems hclasses ha.stem hb.stem (stem_ne_optional a) (stem_ne_optional b)
        · intro u v hu hv
          have hnames := ha.stem
          have hnames' := hb.stem
          rw [hu] at hnames
          rw [hv] at hnames'
          exact hpart (hbase hu) hnames.ofArray hnames'.ofArray
        · intro hstem _
          exact hpart (sizeOf_stem_lt hfunctionA hstem) ha.stem hb.stem
      | true =>
        cases b with
        | function params result =>
          apply Apart.symm
          apply Apart.function_of_not_isFunction hclasses ha hfunctionA
          intro hstem p hp
          exact (hpart (sizeOf_stem_lt hfunctionA hstem) ha.stem (hb.ofFunction.1 p hp)).symm
        | _ => cases hfunctionB
    | true =>
      cases a with
      | function params result =>
        have hparam {p : Ty} (hp : p ∈ params) : sizeOf p < sizeOf (function params result) := by
          have hlt := List.sizeOf_lt_of_mem hp
          rw [function.sizeOf_spec]
          omega
        have hresult : sizeOf result < sizeOf (function params result) := by
          rw [function.sizeOf_spec]
          omega
        cases hfunctionB : b.isFunction with
        | false =>
          apply Apart.function_of_not_isFunction hclasses hb hfunctionB
          intro _ p hp
          exact hpart (hparam hp) (ha.ofFunction.1 p hp) hb.stem
        | true =>
          cases b with
          | function params' result' =>
            apply Apart.functions hclasses ha hb
            · intro p hp q hq
              exact hpart (hparam hp) (ha.ofFunction.1 p hp) (hb.ofFunction.1 q hq)
            · exact hpart hresult ha.ofFunction.2 hb.ofFunction.2
          | _ => cases hfunctionB
      | _ => cases hfunctionA

/-- How a type is written determines the type. -/
theorem describe_inj {a b : Ty} (ha : a.known = true) (hb : b.known = true)
    (hclasses : ToldApart (a.refs ++ b.refs)) (h : a.describe = b.describe) : a = b := by
  have hnamesA : Names (a.refs ++ b.refs) a := ⟨ha, fun ref href => List.mem_append_left _ href⟩
  have hnamesB : Names (a.refs ++ b.refs) b := ⟨hb, fun ref href => List.mem_append_right _ href⟩
  have hends : Ends [] := nofun
  exact (hnamesA.apart hclasses hnamesB [] [] hends hends (by rw [h])).1

end PeakLang.Ty
