import Mathlib.Data.List.Forall2
import PeakLang.Proofs.Js.Lexical

namespace PeakLang.Js

/-- The bytes that may follow every text. -/
def closers : Text := " (),[]"

/-- Whether a byte may follow a text; `pointed` says whether a point may. -/
def closes (pointed : Bool) (b : UInt8) : Bool := closers.contains b || (pointed && b == 46)

/-- Whether a text may follow another. -/
def Ends (pointed : Bool) (rest : Text) : Prop := ∀ b ∈ rest.head?, closes pointed b = true

/-- Whether tokens are those of a text, whatever follows it. -/
def Spells (pointed : Bool) (text : Text) (ts : List Token) : Prop :=
  ∀ rest us, Ends pointed rest → Lexes rest us → Lexes (text ++ rest) (ts ++ us)

theorem closers_spelled : ∀ b ∈ closers, isWordByte b = false := by
  have hall : closers.all (fun b => !isWordByte b) = true := by decide
  intro b hb
  simpa using List.all_eq_true.mp hall b hb

theorem not_isWordByte_of_closes {pointed : Bool} {b : UInt8} (h : closes pointed b = true) :
    isWordByte b = false := by
  rw [closes, Bool.or_eq_true, List.contains_iff_mem] at h
  obtain h | h := h
  · exact closers_spelled b h
  · rw [Bool.and_eq_true, beq_iff_eq] at h
    rw [h.2]
    rfl

namespace Spells

variable {pointed pointed' : Bool} {text text' : Text} {ts us : List Token} {t : Token}

theorem unpointed (h : Spells true text ts) : Spells false text ts := by
  intro rest us hrest hlexes
  refine h rest us ?_ hlexes
  intro b hb
  have hclose := hrest b hb
  rw [closes, Bool.false_and, Bool.or_false] at hclose
  rw [closes, hclose, Bool.true_or]

theorem nil : Spells pointed [] [] := fun _ _ _ hlexes => hlexes

/-- A text after another, if its first byte may follow that. -/
theorem append (h : Spells pointed text ts) (h' : Spells pointed' text' us)
    (hhead : ∃ b ∈ text'.head?, closes pointed b = true) :
    Spells pointed' (text ++ text') (ts ++ us) := by
  intro rest vs hrest hlexes
  rw [List.append_assoc, List.append_assoc]
  refine h _ _ ?_ (h' rest vs hrest hlexes)
  obtain ⟨b, hb, hclose⟩ := hhead
  cases text' with
  | nil => cases hb
  | cons c text' =>
    cases hb
    intro c hc
    cases hc
    exact hclose

theorem blank (h : Spells pointed text ts) : Spells pointed (32 :: text) ts :=
  fun rest us hrest hlexes => .blank rfl (h rest us hrest hlexes)

theorem delimiter {b : UInt8} (hb : (b, t) ∈ delimiters) (h : Spells pointed text ts) :
    Spells pointed (b :: text) (t :: ts) :=
  fun rest us hrest hlexes => .delimiter hb (h rest us hrest hlexes)

/-- A mark before a text that starts with no other mark. -/
theorem mark {mark : Text} (hmark : (mark, t) ∈ marks) (h : Spells pointed text ts)
    (hhead : ∃ b ∈ text.head?, isMarkByte b = false ∧ (mark = [46] → Text.isDigit b = false)) :
    Spells pointed (mark ++ text) (t :: ts) := by
  intro rest us hrest hlexes
  obtain ⟨b, hb, hmarkByte, hdigit⟩ := hhead
  cases text with
  | nil => cases hb
  | cons c text =>
    cases hb
    rw [List.append_assoc]
    refine Lexes.mark hmark ?_ ?_ (h rest us hrest hlexes)
    · intro b hb
      cases hb
      exact hmarkByte
    · intro hdot b hb
      cases hb
      exact hdigit hdot

theorem name {n : Text} (h : IsIdentifier n) : Spells true n [.name n] := by
  intro rest us hrest hlexes
  obtain ⟨b, tail, rfl, -, hdigit⟩ := h.eq_cons
  refine Lexes.word h.bytes h.word (fun c hc => not_isWordByte_of_closes (hrest c hc)) ?_ hlexes
  intro hnot
  rw [hdigit] at hnot
  cases hnot

theorem number (n : Nat) : Spells false (Text.ofNat n) [.number n] := by
  intro rest us hrest hlexes
  have hword := word?_ofNat n
  have hdigits (c : UInt8) (hc : c ∈ Text.ofNat n) := isWordByte_of_isDigit (Text.isDigit_of_mem_ofNat hc)
  obtain ⟨b, tail, htext, -⟩ := Text.ofNat_eq_cons n
  rw [htext] at hword hdigits ⊢
  refine Lexes.word hdigits hword (fun c hc => not_isWordByte_of_closes (hrest c hc)) ?_ hlexes
  intro _ hpoint
  have hclose := hrest 46 hpoint
  cases hclose

theorem string (value : Text) : Spells pointed (stringLiteral value) [.string value] :=
  fun _ _ _ hlexes => .string value hlexes

end Spells

section Loosen

variable {ts : List Token} {x : Node}

/-- What is an operation of a level is one of the levels below. -/
theorem Derives.loosen {level level' : Nat} (h : Derives (.operation level') ts x)
    (hle : level ≤ level') (hlevel' : level' ≤ 7) : Derives (.operation level) ts x := by
  obtain ⟨k, rfl⟩ := Nat.exists_eq_add_of_le hle
  clear hle
  induction k generalizing level with
  | zero => exact h
  | succ k ih =>
    refine .tighter (by omega) (ih ?_ (by omega))
    rwa [show level + 1 + k = level + (k + 1) by omega]

theorem Derives.operation_of_signed (h : Derives .signed ts x) {level : Nat} (hlevel : level ≤ 7) :
    Derives (.operation level) ts x :=
  Derives.loosen (.signed h) hlevel (Nat.le_refl 7)

theorem Derives.expression_of_signed (h : Derives .signed ts x) : Derives .expression ts x :=
  .operation (h.operation_of_signed (by decide))

end Loosen

/-- Whether a text is a phrase with a parse tree. -/
def Written (pointed : Bool) (p : Phrase) (text : Text) (r : p.Result) : Prop :=
  ∃ ts, Derives p ts r ∧ Spells pointed text ts

namespace Written

variable {pointed : Bool} {text text' : Text} {x y z : Node} {xs : List Node} {n : Text}

theorem parses (h : Written pointed .expression text x) : Parses text x := by
  obtain ⟨ts, hderives, hspells⟩ := h
  have hlexes := hspells [] [] (fun b hb => by cases hb) .nil
  rw [List.append_nil, List.append_nil] at hlexes
  exact ⟨ts, hlexes, hderives⟩

theorem unpointed {p : Phrase} {r : p.Result} (h : Written true p text r) : Written false p text r := by
  obtain ⟨ts, hderives, hspells⟩ := h
  exact ⟨ts, hderives, hspells.unpointed⟩

section Operands

theorem name (h : IsIdentifier n) : Written true .primary n (.name n) := ⟨_, .name, .name h⟩

theorem number (n : Nat) : Written false .primary (Text.ofNat n) (.number n) :=
  ⟨_, .number, .number n⟩

theorem string (value : Text) : Written true .primary (stringLiteral value) (.string value) :=
  ⟨_, .string, .string value⟩

theorem paren (h : Written false .expression text x) :
    Written true .primary ("(" ++ text ++ ")") x := by
  obtain ⟨ts, hderives, hspells⟩ := h
  have hclose : Spells true [41] [.rparen] := .delimiter (by decide) .nil
  exact ⟨_, .parenthesized hderives,
    .delimiter (by decide) (hspells.append hclose ⟨_, rfl, by decide⟩)⟩

theorem this : Written true .primary "this" .this := by
  refine ⟨_, .this, fun rest us hrest hlexes => ?_⟩
  have hbytes : List.all ("this" : Text) isWordByte = true := by decide
  refine Lexes.word (List.all_eq_true.mp hbytes) rfl
    (fun c hc => not_isWordByte_of_closes (hrest c hc)) ?_ hlexes
  intro hdigit
  cases hdigit

theorem bool (value : Bool) : Written true .primary (Text.ofBool value) (.bool value) := by
  refine ⟨_, .bool, fun rest us hrest hlexes => ?_⟩
  have hends (c : UInt8) (hc : c ∈ rest.head?) := not_isWordByte_of_closes (hrest c hc)
  have hbytes : (Text.ofBool value).all isWordByte = true := by cases value <;> decide
  cases value with
  | false =>
    exact Lexes.word (List.all_eq_true.mp hbytes) rfl hends (fun hdigit => by cases hdigit) hlexes
  | true =>
    exact Lexes.word (List.all_eq_true.mp hbytes) rfl hends (fun hdigit => by cases hdigit) hlexes

theorem array (h : Written false .items text xs) :
    Written true .primary ("[" ++ text ++ "]") (.array xs) := by
  obtain ⟨ts, hderives, hspells⟩ := h
  have hclose : Spells true [93] [.rbracket] := .delimiter (by decide) .nil
  exact ⟨_, .array hderives, .delimiter (by decide) (hspells.append hclose ⟨_, rfl, by decide⟩)⟩

theorem accessed (h : Written pointed .primary text x) : Written pointed .accessed text x := by
  obtain ⟨ts, hderives, hspells⟩ := h
  exact ⟨ts, .primary hderives, hspells⟩

theorem called (h : Written pointed .accessed text x) : Written pointed .called text x := by
  obtain ⟨ts, hderives, hspells⟩ := h
  exact ⟨ts, .accessed hderives, hspells⟩

theorem signed (h : Written pointed .called text x) : Written pointed .signed text x := by
  obtain ⟨ts, hderives, hspells⟩ := h
  exact ⟨ts, .called hderives, hspells⟩

theorem expression (h : Written pointed .signed text x) : Written pointed .expression text x := by
  obtain ⟨ts, hderives, hspells⟩ := h
  exact ⟨ts, hderives.expression_of_signed, hspells⟩

theorem operand (h : Written pointed .primary text x) : Written pointed .called text x :=
  h.accessed.called

theorem plain (h : Written true .called text x) : Written false .expression text x :=
  h.unpointed.signed.expression

theorem item (h : Written pointed .expression text x) : Written pointed .item text x := by
  obtain ⟨ts, hderives, hspells⟩ := h
  exact ⟨ts, .plain hderives, hspells⟩

end Operands

section Accesses

/-- Items in parentheses after a text. -/
theorem arguments_spelled {ts us : List Token} (h : Spells false text ts)
    (hargs : Spells false text' us) :
    Spells true (text ++ "(" ++ text' ++ ")") (ts ++ .lparen :: (us ++ [.rparen])) := by
  have hclose : Spells true [41] [.rparen] := .delimiter (by decide) .nil
  have hopen : Spells true (40 :: (text' ++ [41])) (.lparen :: (us ++ [.rparen])) :=
    .delimiter (by decide) (hargs.append hclose ⟨_, rfl, by decide⟩)
  have hwhole := h.append hopen ⟨_, rfl, by decide⟩
  rw [List.append_assoc, List.append_assoc]
  exact hwhole

theorem call (h : Written false .called text x) (hargs : Written false .items text' xs) :
    Written true .called (text ++ "(" ++ text' ++ ")") (.call x xs) := by
  obtain ⟨ts, hderives, hspells⟩ := h
  obtain ⟨us, hargs, hargsSpelled⟩ := hargs
  exact ⟨_, .call hderives hargs, arguments_spelled hspells hargsSpelled⟩

theorem new (h : Written false .accessed text x) (hargs : Written false .items text' xs) :
    Written true .accessed ("new " ++ text ++ "(" ++ text' ++ ")") (.new x xs) := by
  obtain ⟨ts, hderives, hspells⟩ := h
  obtain ⟨us, hargs, hargsSpelled⟩ := hargs
  refine ⟨_, .new hderives hargs, fun rest vs hrest hlexes => ?_⟩
  have hwhole := arguments_spelled hspells hargsSpelled rest vs hrest hlexes
  have hspace : Lexes (32 :: (text ++ "(" ++ text' ++ ")" ++ rest)) _ := .blank rfl hwhole
  have hbytes : List.all ([110, 101, 119] : Text) isWordByte = true := by decide
  have hnew := Lexes.word (List.all_eq_true.mp hbytes) rfl (fun c hc => by cases hc; rfl)
    (fun h => by cases h) hspace
  exact hnew

theorem index (h : Written false .called text x) (hi : Written false .expression text' y) :
    Written true .called (text ++ "[" ++ text' ++ "]") (.index x y) := by
  obtain ⟨ts, hderives, hspells⟩ := h
  obtain ⟨us, hi, hiSpelled⟩ := hi
  have hclose : Spells true [93] [.rbracket] := .delimiter (by decide) .nil
  have hopen : Spells true (91 :: (text' ++ [93])) (.lbracket :: (us ++ [.rbracket])) :=
    .delimiter (by decide) (hiSpelled.append hclose ⟨_, rfl, by decide⟩)
  have hwhole := hspells.append hopen ⟨_, rfl, by decide⟩
  rw [List.append_assoc, List.append_assoc]
  exact ⟨_, .index hderives hi, hwhole⟩

theorem member (h : Written true .called text x) (hn : IsIdentifier n) :
    Written true .called (text ++ "." ++ n) (.member x n) := by
  obtain ⟨ts, hderives, hspells⟩ := h
  have hname := Spells.name hn
  obtain ⟨b, tail, rfl, hword, hdigit⟩ := hn.eq_cons
  have hpoint : Spells true ([46] ++ b :: tail) [.dot, .name (b :: tail)] := by
    exact .mark (by decide) hname ⟨b, rfl, not_isMarkByte_of_isWordByte hword, fun _ => hdigit⟩
  have hwhole := hspells.append hpoint ⟨_, rfl, by decide⟩
  rw [List.append_assoc]
  exact ⟨_, .member hderives, hwhole⟩

end Accesses

section Operations

theorem unary {sign : Sign} {mark : Text} (hmark : (mark, sign.token) ∈ marks)
    (h : Written false .expression text x) :
    Written true .signed (mark ++ ("(" ++ text ++ ")")) (.unary sign x) := by
  obtain ⟨ts, hderives, hspells⟩ := h.paren.accessed.called.signed
  exact ⟨_, .unary hderives, .mark hmark hspells ⟨40, rfl, by decide, fun _ => by decide⟩⟩

theorem negative (n : Nat) : Written false .signed ("-" ++ Text.ofNat n) (.unary .minus (.number n)) := by
  obtain ⟨ts, hderives, hspells⟩ := (number n).accessed.called.signed
  have hmark : (Text.ofString "-", Sign.minus.token) ∈ marks := by decide
  refine ⟨_, .unary hderives, .mark hmark hspells ?_⟩
  obtain ⟨b, tail, htext, -⟩ := Text.ofNat_eq_cons n
  have hb : b ∈ Text.ofNat n := htext ▸ List.mem_cons_self
  refine ⟨b, by rw [htext]; rfl, ?_, fun hpoint => absurd hpoint (by decide)⟩
  exact not_isMarkByte_of_isWordByte (isWordByte_of_isDigit (Text.isDigit_of_mem_ofNat hb))

/-- An operator between blanks. -/
theorem operator_spelled {op : Operator} {mark : Text} {ts us : List Token}
    (hmark : (mark, .op op) ∈ marks) (hx : Spells false text ts) (hy : Spells pointed text' us) :
    Spells pointed (text ++ " " ++ mark ++ " " ++ text') (ts ++ .op op :: us) := by
  have hright : Spells pointed (mark ++ 32 :: text') (.op op :: us) :=
    .mark hmark hy.blank ⟨32, rfl, by decide, fun _ => by decide⟩
  have hwhole := hx.append hright.blank ⟨_, rfl, by decide⟩
  rw [List.append_assoc, List.append_assoc, List.append_assoc]
  exact hwhole

theorem binary {op : Operator} {mark : Text} (hmark : (mark, .op op) ∈ marks) (hop : op ≠ .pow)
    (hx : Written false .signed text x) (hy : Written pointed .signed text' y) :
    Written pointed .expression (text ++ " " ++ mark ++ " " ++ text') (.binary op x y) := by
  obtain ⟨ts, hx, hxSpelled⟩ := hx
  obtain ⟨us, hy, hySpelled⟩ := hy
  have hlevel : 1 ≤ op.level ∧ op.level < 7 := by
    cases op <;> first | decide | exact absurd rfl hop
  have hwhole : Derives (.operation op.level) (ts ++ .op op :: us) (.binary op x y) :=
    .binary hop (hx.operation_of_signed (by omega)) (hy.operation_of_signed (by omega))
  exact ⟨_, .operation (hwhole.loosen hlevel.1 (by omega)), operator_spelled hmark hxSpelled hySpelled⟩

theorem power (hx : Written false .called text x) (hy : Written pointed .signed text' y) :
    Written pointed .expression (text ++ " " ++ "**" ++ " " ++ text') (.binary .pow x y) := by
  obtain ⟨ts, hx, hxSpelled⟩ := hx
  obtain ⟨us, hy, hySpelled⟩ := hy
  have hwhole : Derives (.operation 7) (ts ++ .op .pow :: us) (.binary .pow x y) :=
    .power hx (.signed hy)
  have hmark : (Text.ofString "**", Token.op .pow) ∈ marks := by decide
  exact ⟨_, .operation (hwhole.loosen (by decide) (by decide)),
    operator_spelled hmark hxSpelled hySpelled⟩

theorem conditional {text'' : Text} (hx : Written false .signed text x)
    (hy : Written false .expression text' y) (hz : Written pointed .expression text'' z) :
    Written pointed .expression (text ++ " ? " ++ text' ++ " : " ++ text'') (.conditional x y z) := by
  obtain ⟨ts, hx, hxSpelled⟩ := hx
  obtain ⟨us, hy, hySpelled⟩ := hy
  obtain ⟨vs, hz, hzSpelled⟩ := hz
  have hcolon : Spells pointed ([58] ++ 32 :: text'') (.colon :: vs) :=
    .mark (by decide) hzSpelled.blank ⟨32, rfl, by decide, fun _ => by decide⟩
  have hright := hySpelled.append hcolon.blank ⟨_, rfl, by decide⟩
  have hquestion : Spells pointed ([63] ++ 32 :: (text' ++ 32 :: ([58] ++ 32 :: text'')))
      (.question :: (us ++ .colon :: vs)) :=
    .mark (by decide) hright.blank ⟨32, rfl, by decide, fun _ => by decide⟩
  have hwhole := hxSpelled.append hquestion.blank ⟨_, rfl, by decide⟩
  rw [List.append_assoc, List.append_assoc, List.append_assoc]
  exact ⟨_, .conditional (hx.operation_of_signed (by decide)) hy hz, hwhole⟩

end Operations

section Lists

theorem join_cons_cons (separator text text' : Text) (texts : List Text) :
    Text.join separator (text :: text' :: texts) =
      text ++ (separator ++ Text.join separator (text' :: texts)) := by
  simp [Text.join, List.intercalate]

/-- Items with commas between them, and blanks after these or none. -/
theorem items {separator : Text} (hseparator : separator = "," ∨ separator = ", ")
    {texts : List Text} (h : List.Forall₂ (Written false .item) texts xs) :
    Written false .items (Text.join separator texts) xs := by
  induction h with
  | nil => exact ⟨[], .none, .nil⟩
  | @cons text x texts xs hx hrest ih =>
    obtain ⟨ts, hx, hxSpelled⟩ := hx
    cases hrest with
    | nil =>
      rw [show Text.join separator [text] = text from List.append_nil text]
      exact ⟨ts, .one hx, hxSpelled⟩
    | @cons text' y texts ys hy hrest =>
      obtain ⟨us, hys, hysSpelled⟩ := ih
      have hcomma : Spells false (separator ++ Text.join separator (text' :: texts)) (.comma :: us) := by
        obtain rfl | rfl := hseparator
        · exact .delimiter (by decide) hysSpelled
        · exact .delimiter (by decide) hysSpelled.blank
      rw [join_cons_cons]
      refine ⟨_, .more hx hys, hxSpelled.append hcomma ?_⟩
      obtain rfl | rfl := hseparator
      · exact ⟨_, rfl, by decide⟩
      · exact ⟨_, rfl, by decide⟩

theorem spread (h : Written pointed .expression text x)
    (hhead : ∃ b ∈ text.head?, isMarkByte b = false) :
    Written pointed .item ("..." ++ text) (.spread x) := by
  obtain ⟨ts, hx, hspells⟩ := h
  obtain ⟨b, hb, hmark⟩ := hhead
  exact ⟨_, .spread hx, .mark (by decide) hspells ⟨b, hb, hmark, fun hpoint => absurd hpoint (by decide)⟩⟩

theorem arrow (hn : IsIdentifier n) (h : Written pointed .expression text x) :
    Written pointed .expression ("(" ++ n ++ ") => " ++ text) (.arrow n x) := by
  obtain ⟨ts, hx, hspells⟩ := h
  have hmark : Spells pointed ([61, 62] ++ 32 :: text) (.arrow :: ts) :=
    .mark (by decide) hspells.blank ⟨32, rfl, by decide, fun _ => by decide⟩
  have hclose : Spells pointed (41 :: 32 :: ([61, 62] ++ 32 :: text)) (.rparen :: .arrow :: ts) :=
    .delimiter (by decide) hmark.blank
  have hname := (Spells.name hn).append hclose ⟨_, rfl, by decide⟩
  have hopen : Spells pointed (40 :: (n ++ 41 :: 32 :: ([61, 62] ++ 32 :: text)))
      (.lparen :: .name n :: .rparen :: .arrow :: ts) := .delimiter (by decide) hname
  rw [List.append_assoc]
  exact ⟨_, .arrow hx, hopen⟩

end Lists

end Written

end PeakLang.Js
