import Mathlib.Algebra.GroupWithZero.Nat
import PeakLang.Proofs.Js.Written

namespace PeakLang.Js

/-- Where a byte of a text stands: outside of strings, in a string, or there behind a backslash. -/
inductive Place where
  | outside
  | inside
  | escaped
deriving DecidableEq

/-- A text without its strings; of each one its opening quote is left. -/
def unquoted : Place → Text → Text
  | _, [] => []
  | .outside, b :: rest => b :: unquoted (if b == 34 then .inside else .outside) rest
  | .inside, b :: rest =>
    unquoted (if b == 34 then .outside else if b == 92 then .escaped else .inside) rest
  | .escaped, _ :: rest => unquoted .inside rest

/-- The longest stretches of word bytes. -/
def stretches (text : Text) : List Text :=
  (text.splitOnP fun b => !isWordByte b).filter fun w => !w.isEmpty

/-- The names, keywords and numbers of a text: the stretches of word bytes outside of its strings, each
as long as it can be. -/
def words (text : Text) : List Text := stretches (unquoted .outside text)

section Stretches

variable {text : Text} {b : UInt8}

theorem stretches_nil : stretches [] = [] := by
  rw [stretches, List.splitOnP_nil]
  rfl

/-- A byte that is in no word parts the stretches before it from those after it. -/
theorem stretches_append_cons (h : isWordByte b = false) (before after : Text) :
    stretches (before ++ b :: after) = stretches before ++ stretches after := by
  rw [stretches, List.splitOnP_append_cons _ _ (by rw [h]; rfl), List.filter_append]
  rfl

theorem stretches_cons (h : isWordByte b = false) (after : Text) :
    stretches (b :: after) = stretches after := by
  have hparts := stretches_append_cons h [] after
  rwa [stretches_nil, List.nil_append, List.nil_append] at hparts

theorem stretches_word (hne : text ≠ []) (h : ∀ b ∈ text, isWordByte b = true) :
    stretches text = [text] := by
  rw [stretches, List.splitOnP_eq_singleton fun b hb => by rw [h b hb]; rfl]
  simpa using hne

/-- A stretch before a byte that is in no word, or at the end. -/
theorem stretches_word_append {rest : Text} (hne : text ≠ []) (h : ∀ b ∈ text, isWordByte b = true)
    (hrest : ∀ b ∈ rest.head?, isWordByte b = false) :
    stretches (text ++ rest) = text :: stretches rest := by
  cases rest with
  | nil => rw [List.append_nil, stretches_word hne h, stretches_nil]
  | cons b rest =>
    have hb := hrest b rfl
    rw [stretches_append_cons hb, stretches_word hne h, stretches_cons hb, List.singleton_append]

theorem mem_of_mem_splitOnP {p : UInt8 → Bool} {w : Text} (hw : w ∈ text.splitOnP p) (hb : b ∈ w) :
    b ∈ text := by
  induction text generalizing w with
  | nil =>
    rw [List.splitOnP_nil, List.mem_singleton] at hw
    rwa [hw] at hb
  | cons c text ih =>
    rw [List.splitOnP_cons_eq_if_modifyHead] at hw
    split at hw
    · rcases List.mem_cons.mp hw with rfl | hw
      · cases hb
      · exact List.mem_cons_of_mem c (ih hw hb)
    · obtain ⟨first, others, hsplit⟩ := List.exists_cons_of_ne_nil (List.splitOnP_ne_nil p text)
      rw [hsplit] at hw ih
      rcases List.mem_cons.mp hw with rfl | hw
      · rcases List.mem_cons.mp hb with rfl | hb
        · exact List.mem_cons_self
        · exact List.mem_cons_of_mem c (ih List.mem_cons_self hb)
      · exact List.mem_cons_of_mem c (ih (List.mem_cons_of_mem first hw) hb)

theorem mem_of_mem_stretches {w : Text} (hw : w ∈ stretches text) (hb : b ∈ w) : b ∈ text :=
  mem_of_mem_splitOnP (List.mem_filter.mp hw).1 hb

end Stretches

section Strings

variable {text text' : Text}

/-- Whether the strings of a text end in it: what follows is outside of strings. -/
def Closed (text : Text) : Prop :=
  ∀ rest, unquoted .outside (text ++ rest) = unquoted .outside text ++ unquoted .outside rest

theorem unquoted_append_of_notMem (h : 34 ∉ text) (rest : Text) :
    unquoted .outside (text ++ rest) = text ++ unquoted .outside rest := by
  induction text with
  | nil => rfl
  | cons b text ih =>
    rw [List.mem_cons, not_or] at h
    have hb : (b == 34) = false := beq_eq_false_iff_ne.mpr (Ne.symm h.1)
    rw [List.cons_append, unquoted, hb, List.cons_append]
    exact congrArg (b :: ·) (ih h.2)

theorem unquoted_of_notMem (h : 34 ∉ text) : unquoted .outside text = text := by
  have happend := unquoted_append_of_notMem h []
  rwa [List.append_nil, show unquoted .outside [] = [] from rfl, List.append_nil] at happend

theorem Closed.of_notMem (h : 34 ∉ text) : Closed text := by
  intro rest
  rw [unquoted_append_of_notMem h, unquoted_of_notMem h]

theorem Closed.append (h : Closed text) (h' : Closed text') : Closed (text ++ text') := by
  intro rest
  rw [List.append_assoc, h, h', h text', List.append_assoc]

/-- What is left of a string, from its inside on. -/
theorem unquoted_quoted? {place : Place} {value rest : Text} (hplace : place ≠ .outside)
    (h : quoted? (place == .escaped) text = some (value, rest)) :
    unquoted place text = unquoted .outside rest := by
  induction text generalizing place value with
  | nil =>
    cases hplace' : place == .escaped <;> rw [hplace'] at h <;> cases h
  | cons b text ih =>
    cases place with
    | outside => exact absurd rfl hplace
    | inside =>
      rw [show (Place.inside == Place.escaped) = false from rfl, quoted?] at h
      rw [unquoted]
      split at h
      · rename_i hquote
        cases h
        rw [if_pos hquote]
      · rename_i hquote
        rw [if_neg hquote]
        split at h
        · cases h
        · split at h
          · rename_i hbackslash
            rw [if_pos hbackslash]
            exact ih (by decide) h
          · rename_i hbackslash
            rw [if_neg hbackslash]
            obtain ⟨⟨value, rest'⟩, hquoted, heq⟩ := Option.bind_eq_some_iff.mp h
            cases heq
            exact ih (by decide) hquoted
    | escaped =>
      rw [show (Place.escaped == Place.escaped) = true from rfl, quoted?] at h
      obtain ⟨c, -, h⟩ := Option.bind_eq_some_iff.mp h
      obtain ⟨⟨value, rest'⟩, hquoted, heq⟩ := Option.bind_eq_some_iff.mp h
      cases heq
      exact ih (by decide) hquoted

theorem unquoted_stringLiteral (value rest : Text) :
    unquoted .outside (stringLiteral value ++ rest) = 34 :: unquoted .outside rest := by
  rw [stringLiteral_append]
  refine congrArg (34 :: ·) ?_
  exact unquoted_quoted? (by decide) (quoted?_flatMap_escape value rest)

end Strings

section Tokens

variable {n text rest : Text} {t : Token}

def Token.name? : Token → Option Text
  | .name m => some m
  | _ => none

theorem name?_of_word? {word : Text} (h : word? word = some t) : t.name? = none ∨ t = .name word := by
  unfold word? at h
  iterate 5
    split at h
    · cases h
      exact .inl rfl
  split at h
  · cases h
    exact .inr rfl
  · cases h

theorem count_singleton_of_name? (h : t.name? = none) : [t].count (.name n) = 0 := by
  rw [List.count_eq_zero, List.mem_singleton]
  rintro rfl
  cases h

theorem marks_not_name : ∀ m ∈ marks, m.2.name? = none := by decide

theorem delimiters_not_name : ∀ d ∈ delimiters, d.2.name? = none := by decide

theorem mem_of_lookup {α β : Type} [BEq α] [LawfulBEq α] {entries : List (α × β)} {a : α} {b : β}
    (h : entries.lookup a = some b) : (a, b) ∈ entries := by
  obtain ⟨before, after, rfl, -⟩ := List.lookup_eq_some_iff.mp h
  exact List.mem_append_right before List.mem_cons_self

/-- What is left of a text starts with a word byte only if the text does. -/
theorem head?_unquoted (rest : Text) : (unquoted .outside rest).head? = rest.head? := by
  cases rest <;> rfl

/-- A word is a word of its text, before a byte that is in no word. -/
theorem words_word_append (hne : text ≠ []) (h : ∀ b ∈ text, isWordByte b = true)
    (hrest : ∀ b ∈ rest.head?, isWordByte b = false) : words (text ++ rest) = text :: words rest := by
  rw [words, unquoted_append_of_notMem fun hquote => isWordByte_ne (h 34 hquote) rfl rfl]
  exact stretches_word_append hne h (by rwa [head?_unquoted])

/-- A byte that is in no word and opens no string brings no words. -/
theorem words_cons_of_break {b : UInt8} (hbreak : isWordByte b = false) (hquote : b ≠ 34) (rest : Text) :
    words (b :: rest) = words rest := by
  rw [words, unquoted, stretches_cons hbreak, beq_eq_false_iff_ne.mpr hquote]
  rfl

theorem words_append_of_breaks (h : ∀ b ∈ text, isWordByte b = false ∧ b ≠ 34) (rest : Text) :
    words (text ++ rest) = words rest := by
  induction text with
  | nil => rfl
  | cons b text ih =>
    rw [List.forall_mem_cons] at h
    rw [List.cons_append, words_cons_of_break h.1.1 h.1.2]
    exact ih h.2

theorem not_of_mem_head?_dropWhile {p : UInt8 → Bool} {b : UInt8}
    (h : b ∈ (text.dropWhile p).head?) : p b = false := by
  have hhead := List.head?_dropWhile_not p text
  rw [show (text.dropWhile p).head? = some b from h] at hhead
  exact hhead

/-- A word counts for a name if it is the token of that name. -/
theorem count_words_word_append {word : Text} (hn : word? n = some (.name n))
    (hword : word? word = some t) (hne : word ≠ []) (hbytes : ∀ b ∈ word, isWordByte b = true)
    (hrest : ∀ b ∈ rest.head?, isWordByte b = false) :
    (words (word ++ rest)).count n = [t].count (.name n) + (words rest).count n := by
  rw [words_word_append hne hbytes hrest, List.count_cons, Nat.add_comm]
  congr 1
  rcases name?_of_word? hword with hnone | rfl
  · have hother : ¬ (word == n) = true := by
      intro heq
      rw [beq_iff_eq.mp heq, hn] at hword
      cases hword
      cases hnone
    rw [count_singleton_of_name? hnone, if_neg hother]
  · simp [List.count_singleton]

/-- A string brings no words. -/
theorem words_of_quoted? {value : Text} (h : quoted? false text = some (value, rest)) :
    words (34 :: text) = words rest := by
  have htail : unquoted .inside text = unquoted .outside rest := unquoted_quoted? (by decide) h
  rw [words, unquoted, beq_self_eq_true, if_pos rfl, htail, stretches_cons rfl]
  rfl

/-- A token that is no name and brings no words. -/
theorem count_words_of_name? (ht : t.name? = none) (h : words text = words rest) :
    (words text).count n = [t].count (.name n) + (words rest).count n := by
  rw [count_singleton_of_name? ht, Nat.zero_add, h]

/-- The words of a text are that of its first token, if this is one, and those of the rest. -/
theorem count_words_of_next? (hn : word? n = some (.name n)) (h : next? text = some (t, rest)) :
    (words text).count n = [t].count (.name n) + (words rest).count n := by
  cases text with
  | nil => cases h
  | cons b tail =>
    rw [next?] at h
    split at h
    · -- A string.
      rename_i hquote
      obtain ⟨⟨value, rest'⟩, hvalue, heq⟩ := Option.map_eq_some_iff.mp h
      cases heq
      rw [beq_iff_eq.mp hquote]
      exact count_words_of_name? rfl (words_of_quoted? hvalue)
    split at h
    · -- A word.
      rename_i hbyte
      have hsplit := List.takeWhile_append_dropWhile (p := isWordByte) (l := b :: tail)
      have hbytes := List.all_eq_true.mp (List.all_takeWhile (p := isWordByte) (l := b :: tail))
      have hne : (b :: tail).takeWhile isWordByte ≠ [] := by
        rw [List.takeWhile_cons_of_pos hbyte]
        exact List.cons_ne_nil _ _
      dsimp only at h
      split at h
      · cases h
      obtain ⟨t', hword, heq⟩ := Option.map_eq_some_iff.mp h
      cases heq
      have hcount := count_words_word_append hn hword hne hbytes
        fun c (hc : c ∈ ((b :: tail).dropWhile isWordByte).head?) => not_of_mem_head?_dropWhile hc
      rwa [hsplit] at hcount
    split at h
    · -- A mark.
      have hsplit := List.takeWhile_append_dropWhile (p := isMarkByte) (l := b :: tail)
      have hbytes := List.all_eq_true.mp (List.all_takeWhile (p := isMarkByte) (l := b :: tail))
      dsimp only at h
      split at h
      · cases h
      obtain ⟨t', hlookup, heq⟩ := Option.map_eq_some_iff.mp h
      cases heq
      have hbreaks := fun c hc => markBytes_spelled c (List.contains_iff_mem.mp (hbytes c hc))
      have hwords := words_append_of_breaks hbreaks ((b :: tail).dropWhile isMarkByte)
      rw [hsplit] at hwords
      exact count_words_of_name? (marks_not_name _ (mem_of_lookup hlookup)) hwords
    · -- A delimiter.
      obtain ⟨t', hlookup, heq⟩ := Option.map_eq_some_iff.mp h
      cases heq
      have hmem := mem_of_lookup hlookup
      obtain ⟨hbreak, -, hquote, -⟩ := delimiters_spelled _ hmem
      exact count_words_of_name? (delimiters_not_name _ hmem) (words_cons_of_break hbreak hquote _)

/-- A name occurs as often among the tokens of a text as among its words. -/
theorem Lexes.count_name {ts : List Token} (h : Lexes text ts) (hn : word? n = some (.name n)) :
    ts.count (.name n) = (words text).count n := by
  induction h with
  | nil => rfl
  | @blank b rest ts hblank _ ih =>
    have hbyte : isWordByte b = false ∧ b ≠ 34 := by
      simp only [isBlank, Bool.or_eq_true, beq_iff_eq] at hblank
      obtain ((rfl | rfl) | rfl) | rfl := hblank <;> decide
    rw [words_cons_of_break hbyte.1 hbyte.2, ih]
  | token hnext _ ih =>
    rw [count_words_of_next? hn hnext, ← ih, ← List.count_append, List.singleton_append]

end Tokens

section Counting

variable {n text text' : Text} {k l : Nat}

/-- Whether a text, whose strings end in it, has a word a number of times. -/
structure Counts (n : Text) (k : Nat) (text : Text) : Prop where
  closed : Closed text
  count : (words text).count n = k

/-- Whether a text parts words: it has no word byte and no quote, and is not empty. -/
def isGap (text : Text) : Bool := !text.isEmpty && text.all fun b => !isWordByte b && b != 34

namespace Counts

theorem nil : Counts n 0 [] := ⟨fun _ => rfl, rfl⟩

theorem parted (h : Counts n k text) (h' : Counts n l text') {b : UInt8}
    (hb : isWordByte b = false ∧ b ≠ 34) : Counts n (k + l) (text ++ b :: text') := by
  have hbyte : Closed [b] := .of_notMem fun hmem => hb.2 (List.mem_singleton.mp hmem).symm
  refine ⟨h.closed.append (hbyte.append h'.closed), ?_⟩
  have hparts : unquoted .outside (text ++ b :: text') =
      unquoted .outside text ++ b :: unquoted .outside text' := by
    rw [h.closed, unquoted, beq_eq_false_iff_ne.mpr hb.2]
    rfl
  rw [words, hparts, stretches_append_cons hb.1, List.count_append]
  exact congrArg₂ (· + ·) h.count h'.count

/-- Two texts with a gap between them, such as a point, a bracket or an operator between blanks. -/
theorem between (h : Counts n k text) (h' : Counts n l text') {gap : Text} (hgap : isGap gap = true) :
    Counts n (k + l) (text ++ gap ++ text') := by
  induction gap generalizing k text with
  | nil => cases hgap
  | cons b gap ih =>
    simp only [isGap, List.isEmpty_cons, Bool.not_false, Bool.true_and, List.all_cons,
      Bool.and_eq_true, Bool.not_eq_true', bne_iff_ne] at hgap
    cases gap with
    | nil =>
      rw [List.append_assoc]
      exact h.parted h' hgap.1
    | cons c gap =>
      rw [List.append_cons]
      exact ih (h.parted nil hgap.1) hgap.2

/-- A text in brackets after another. -/
theorem bracketed (h : Counts n k text) (h' : Counts n l text') {opening closing : Text}
    (hopening : isGap opening = true) (hclosing : isGap closing = true) :
    Counts n (k + l) (text ++ opening ++ text' ++ closing) := by
  have hclosed := (h.between h' hopening).between nil hclosing
  rwa [List.append_nil] at hclosed

/-- A text in brackets. -/
theorem enclosed (h : Counts n k text) {opening closing : Text} (hopening : isGap opening = true)
    (hclosing : isGap closing = true) : Counts n k (opening ++ text ++ closing) := by
  have hwhole := nil.bracketed h hopening hclosing
  rwa [Nat.zero_add] at hwhole

/-- A text that lacks a byte of a word does not have the word. -/
theorem of_notMem (hquote : 34 ∉ text) {b : UInt8} (hn : b ∈ n) (hb : b ∉ text) : Counts n 0 text := by
  refine ⟨.of_notMem hquote, ?_⟩
  rw [List.count_eq_zero, words, unquoted_of_notMem hquote]
  exact fun hmem => hb (mem_of_mem_stretches hmem hn)

theorem word (hne : text ≠ []) (hbytes : ∀ b ∈ text, isWordByte b = true) :
    Counts n (if text = n then 1 else 0) text := by
  have hquote : 34 ∉ text := fun hmem => isWordByte_ne (hbytes 34 hmem) rfl rfl
  refine ⟨.of_notMem hquote, ?_⟩
  rw [words, unquoted_of_notMem hquote, stretches_word hne hbytes, List.count_singleton]
  simp

theorem string (value : Text) : Counts n 0 (stringLiteral value) := by
  have hself : unquoted .outside (stringLiteral value) = [34] := by
    have happend := unquoted_stringLiteral value []
    rwa [List.append_nil] at happend
  refine ⟨fun rest => ?_, ?_⟩
  · rw [unquoted_stringLiteral, hself, List.singleton_append]
  · rw [words, hself, stretches_cons rfl, stretches_nil, List.count_nil]

/-- Texts with commas between them, and blanks after these or none. -/
theorem join {separator : Text} (hseparator : separator = "," ∨ separator = ", ")
    {texts : List Text} {counts : List Nat} (h : List.Forall₂ (Counts n) counts texts) :
    Counts n counts.sum (Text.join separator texts) := by
  induction h with
  | nil => exact nil
  | @cons k text counts texts hfirst hrest ih =>
    cases hrest with
    | nil =>
      rw [show Text.join separator [text] = text from List.append_nil text]
      simpa using hfirst
    | cons hsecond hrest =>
      rw [Written.join_cons_cons, List.sum_cons]
      rw [← List.append_assoc]
      apply hfirst.between ih
      rcases hseparator with rfl | rfl <;> decide

end Counts

end Counting

end PeakLang.Js
