import PeakLang.Token.Scan

namespace PeakLang.Scan

section Heads

/-- What a predicate says of the first character ahead, if it refuses the end of the source. -/
theorem head_append {p : Char → Bool} (hnul : p nul = false) {xs rest : List Rune}
    (hrest : p (head rest) = false) : p (head (xs ++ rest)) = p (head xs) := by
  cases xs with
  | nil => exact hrest.trans hnul.symm
  | cons r xs => rfl

theorem takeWhile_eq_nil {p : Char → Bool} {rest : List Rune} (hrest : p (head rest) = false) :
    rest.takeWhile (fun r => p r.char) = [] := by
  cases rest with
  | nil => rfl
  | cons r rest => exact List.takeWhile_cons_of_neg (Bool.eq_false_iff.mp hrest)

theorem takeWhile_append {p : Char → Bool} {xs rest : List Rune} (hrest : p (head rest) = false) :
    (xs ++ rest).takeWhile (fun r => p r.char) = xs.takeWhile fun r => p r.char := by
  rw [List.takeWhile_append, takeWhile_eq_nil hrest]
  split
  case isTrue hall =>
    rw [List.append_nil]
    exact ((List.takeWhile_prefix _).eq_of_length hall).symm
  case isFalse => rfl

end Heads

def digits (runes : List Rune) : List Rune := runes.takeWhile fun r => isDigit r.char

/-- What follows the digits that runes start with. -/
def afterDigits (runes : List Rune) : List Rune := runes.drop (digits runes).length

/-- The fraction that runes start with: a point, and digits after it. -/
def fraction : List Rune → List Rune
  | point :: more => if point.char == '.' && isDigit (head more) then point :: digits more else []
  | [] => []

/-- What follows the fraction that runes start with. -/
def afterFraction (runes : List Rune) : List Rune := runes.drop (fraction runes).length

/-- The exponent that runes start with: its mark, perhaps a sign, and digits. -/
def exponent : List Rune → List Rune
  | mark :: more =>
    if mark.char == 'e' || mark.char == 'E' then
      match more with
      | sign :: power =>
        if isDigit sign.char then mark :: digits more
        else if (sign.char == '+' || sign.char == '-') && isDigit (head power) then
          mark :: sign :: digits power
        else []
      | [] => []
    else []
  | [] => []

/-- A number has three parts. -/
theorem number_eq (runes : List Rune) :
    number runes =
      (digits runes ++ fraction (afterDigits runes) ++ exponent (afterFraction (afterDigits runes)),
        !(fraction (afterDigits runes)).isEmpty ||
          !(exponent (afterFraction (afterDigits runes))).isEmpty) := by
  rw [number]
  unfold fraction exponent afterFraction fraction
  rfl

theorem fraction_isPrefix (runes : List Rune) : fraction runes <+: runes := by
  unfold fraction
  split
  case h_1 point more =>
    split
    case isTrue => exact (List.prefix_cons_inj point).mpr (List.takeWhile_prefix _)
    case isFalse => exact List.nil_prefix
  case h_2 => exact List.nil_prefix

theorem exponent_isPrefix (runes : List Rune) : exponent runes <+: runes := by
  unfold exponent
  split
  case h_2 => exact List.nil_prefix
  case h_1 mark more =>
    split
    case isFalse => exact List.nil_prefix
    case isTrue =>
      split
      case h_2 => exact List.nil_prefix
      case h_1 sign power =>
        split
        case isTrue => exact (List.prefix_cons_inj mark).mpr (List.takeWhile_prefix _)
        case isFalse =>
          split
          case isTrue =>
            apply (List.prefix_cons_inj mark).mpr
            apply (List.prefix_cons_inj sign).mpr
            exact List.takeWhile_prefix _
          case isFalse => exact List.nil_prefix

theorem digits_append_after (runes : List Rune) : digits runes ++ afterDigits runes = runes :=
  List.prefix_iff_eq_append.mp (List.takeWhile_prefix _)

theorem fraction_append_after (runes : List Rune) : fraction runes ++ afterFraction runes = runes :=
  List.prefix_iff_eq_append.mp (fraction_isPrefix runes)

theorem number_isPrefix (runes : List Rune) : (number runes).1 <+: runes := by
  obtain ⟨rest, hrest⟩ := exponent_isPrefix (afterFraction (afterDigits runes))
  refine ⟨rest, ?_⟩
  rw [number_eq, List.append_assoc, hrest, List.append_assoc, fraction_append_after,
    digits_append_after]

section Append

variable {xs rest : List Rune}

theorem digits_append (hdigit : isDigit (head rest) = false) : digits (xs ++ rest) = digits xs :=
  takeWhile_append hdigit

theorem afterDigits_append (hdigit : isDigit (head rest) = false) :
    afterDigits (xs ++ rest) = afterDigits xs ++ rest := by
  rw [afterDigits, digits_append hdigit]
  exact List.drop_append_of_le_length (List.takeWhile_prefix _).length_le

theorem fraction_append (hdigit : isDigit (head rest) = false)
    (hpoint : head rest = '.' → isDigit (head rest.tail) = false) :
    fraction (xs ++ rest) = fraction xs := by
  cases xs with
  | nil =>
    cases rest with
    | nil => rfl
    | cons point more =>
      refine if_neg fun h => ?_
      rw [Bool.and_eq_true, beq_iff_eq] at h
      exact Bool.eq_false_iff.mp (hpoint h.1) h.2
  | cons point more =>
    rw [List.cons_append, fraction, fraction, head_append (by decide) hdigit, digits_append hdigit]

theorem afterFraction_append (hdigit : isDigit (head rest) = false)
    (hpoint : head rest = '.' → isDigit (head rest.tail) = false) :
    afterFraction (xs ++ rest) = afterFraction xs ++ rest := by
  rw [afterFraction, fraction_append hdigit hpoint]
  exact List.drop_append_of_le_length (fraction_isPrefix xs).length_le

theorem exponent_append (hdigit : isDigit (head rest) = false)
    (hmark : (head rest == 'e' || head rest == 'E') = false) (hxs : exponent xs = xs) :
    exponent (xs ++ rest) = exponent xs := by
  match xs with
  | [] =>
    cases rest with
    | nil => rfl
    | cons mark more => exact if_neg (Bool.eq_false_iff.mp hmark)
  | [mark] =>
    rw [exponent, ite_self] at hxs
    exact nomatch hxs
  | mark :: sign :: more =>
    have hsign : digits (sign :: (more ++ rest)) = digits (sign :: more) := by
      rw [← List.cons_append, digits_append hdigit]
    rw [List.cons_append, List.cons_append]
    simp only [exponent, hsign, head_append (by decide) hdigit, digits_append hdigit]

end Append

/-- A number ends where no digit, point or exponent goes on with it. -/
theorem number_append {runes rest : List Rune} {fractional : Bool}
    (h : number runes = (runes, fractional)) (hword : inWord (head rest) = false)
    (hpoint : head rest = '.' → isDigit (head rest.tail) = false) :
    number (runes ++ rest) = (runes, fractional) := by
  have hdigit : isDigit (head rest) = false := (Bool.or_eq_false_iff.mp hword).2
  have hmark : (head rest == 'e' || head rest == 'E') = false := by
    refine Bool.eq_false_iff.mpr fun hmark => ?_
    rw [Bool.or_eq_true, beq_iff_eq, beq_iff_eq] at hmark
    obtain hmark | hmark := hmark <;> rw [hmark] at hword <;> exact absurd hword (by decide)
  have hpower : exponent (afterFraction (afterDigits runes)) = afterFraction (afterDigits runes) := by
    have hall := (Prod.mk.inj ((number_eq runes).symm.trans h)).1
    have hparts : digits runes ++ fraction (afterDigits runes) ++ afterFraction (afterDigits runes) =
        runes := by
      rw [List.append_assoc, fraction_append_after, digits_append_after]
    exact List.append_cancel_left (hall.trans hparts.symm)
  rw [← h, number_eq, number_eq, digits_append hdigit, afterDigits_append hdigit,
    fraction_append hdigit hpoint, afterFraction_append hdigit hpoint,
    exponent_append hdigit hmark hpower]

section Parts

variable {mark sign point : Rune} {more : List Rune}

theorem fraction_point (hpoint : point.char = '.') (hdigit : isDigit (head more) = true) :
    fraction (point :: more) = point :: digits more := by
  rw [fraction, hpoint, hdigit]
  rfl

/-- A fraction is nothing, or a point and digits. -/
theorem fraction_cases (runes : List Rune) :
    fraction runes = [] ∨
      ∃ point more, fraction runes = point :: digits more ∧ point.char = '.' ∧
        isDigit (head more) = true := by
  unfold fraction
  split
  case h_2 => exact .inl rfl
  case h_1 point more =>
    split
    case isFalse => exact .inl rfl
    case isTrue h =>
      rw [Bool.and_eq_true, beq_iff_eq] at h
      exact .inr ⟨point, more, rfl, h⟩

theorem exponent_digits (hmark : mark.char = 'e' ∨ mark.char = 'E')
    (hdigit : isDigit (head more) = true) : exponent (mark :: more) = mark :: digits more := by
  have hmark : (mark.char == 'e' || mark.char == 'E') = true := by simpa using hmark
  cases more with
  | nil => exact absurd hdigit (by decide)
  | cons sign power =>
    have hdigit : isDigit sign.char = true := hdigit
    simp only [exponent, hmark, hdigit, if_true]

theorem exponent_sign (hmark : mark.char = 'e' ∨ mark.char = 'E')
    (hsign : sign.char = '+' ∨ sign.char = '-') (hdigit : isDigit (head more) = true) :
    exponent (mark :: sign :: more) = mark :: sign :: digits more := by
  have hmark : (mark.char == 'e' || mark.char == 'E') = true := by simpa using hmark
  have hnot : isDigit sign.char = false := by
    obtain h | h := hsign <;> rw [h] <;> rfl
  have hsign : (sign.char == '+' || sign.char == '-') = true := by simpa using hsign
  simp only [exponent, hmark, hsign, hnot, hdigit, Bool.and_self, if_true, Bool.false_eq_true, if_false]

/-- An exponent is nothing, or a mark, perhaps a sign, and digits. -/
theorem exponent_cases (runes : List Rune) :
    exponent runes = [] ∨
      ∃ mark more, (mark.char = 'e' ∨ mark.char = 'E') ∧ isDigit (head more) = true ∧
        (exponent runes = mark :: digits more ∨
          ∃ sign, (sign.char = '+' ∨ sign.char = '-') ∧ exponent runes = mark :: sign :: digits more) := by
  match runes with
  | [] => exact .inl rfl
  | [mark] => exact .inl (by rw [exponent, ite_self])
  | mark :: sign :: power =>
    by_cases hmark : (mark.char == 'e' || mark.char == 'E') = true
    case neg => exact .inl (if_neg hmark)
    case pos =>
      have hmark' : mark.char = 'e' ∨ mark.char = 'E' := by simpa using hmark
      by_cases hdigit : isDigit sign.char = true
      case pos =>
        exact .inr ⟨mark, sign :: power, hmark', hdigit, .inl (exponent_digits hmark' hdigit)⟩
      case neg =>
        by_cases hsign : ((sign.char == '+' || sign.char == '-') && isDigit (head power)) = true
        case neg =>
          refine .inl ?_
          simp only [exponent, hmark, hdigit, hsign, if_true, Bool.false_eq_true, if_false]
        case pos =>
          rw [Bool.and_eq_true, Bool.or_eq_true, beq_iff_eq, beq_iff_eq] at hsign
          exact .inr ⟨mark, power, hmark', hsign.2,
            .inr ⟨sign, hsign.1, exponent_sign hmark' hsign.1 hsign.2⟩⟩

end Parts

section Idempotent

theorem digits_cons_of_pos {r : Rune} (h : isDigit r.char = true) (more : List Rune) :
    digits (r :: more) = r :: digits more := List.takeWhile_cons_of_pos h

theorem digits_digits (runes : List Rune) : digits (digits runes) = digits runes := by
  induction runes with
  | nil => rfl
  | cons r more ih =>
    by_cases h : isDigit r.char = true
    · rw [digits_cons_of_pos h, digits_cons_of_pos h, ih]
    · have hnil : digits (r :: more) = [] := List.takeWhile_cons_of_neg h
      rw [hnil]
      rfl

theorem head_digits {runes : List Rune} (h : isDigit (head runes) = true) :
    isDigit (head (digits runes)) = true := by
  cases runes with
  | nil => exact h
  | cons r more =>
    rw [digits_cons_of_pos h]
    exact h

theorem fraction_fraction (runes : List Rune) : fraction (fraction runes) = fraction runes := by
  obtain h | ⟨point, more, h, hpoint, hdigit⟩ := fraction_cases runes
  · rw [h]
    rfl
  · rw [h, fraction_point hpoint (head_digits hdigit), digits_digits]

theorem exponent_exponent (runes : List Rune) : exponent (exponent runes) = exponent runes := by
  obtain h | ⟨mark, more, hmark, hdigit, h | ⟨sign, hsign, h⟩⟩ := exponent_cases runes
  · rw [h]
    rfl
  · rw [h, exponent_digits hmark (head_digits hdigit), digits_digits]
  · rw [h, exponent_sign hmark hsign (head_digits hdigit), digits_digits]

theorem head_fraction (runes : List Rune) : isDigit (head (fraction runes)) = false := by
  obtain h | ⟨point, more, h, hpoint, -⟩ := fraction_cases runes
  · rw [h]
    rfl
  · rw [h]
    change isDigit point.char = false
    rw [hpoint]
    rfl

theorem head_exponent (runes : List Rune) :
    isDigit (head (exponent runes)) = false ∧ head (exponent runes) ≠ '.' := by
  have hmark {c : Char} (hc : c = 'e' ∨ c = 'E') : isDigit c = false ∧ c ≠ '.' := by
    obtain rfl | rfl := hc <;> decide
  obtain h | ⟨mark, more, hc, -, h | ⟨sign, -, h⟩⟩ := exponent_cases runes
  · rw [h]
    decide
  · rw [h]
    exact hmark hc
  · rw [h]
    exact hmark hc

/-- A number that was read is read again whole. -/
theorem number_number (runes : List Rune) : number (number runes).1 = number runes := by
  have hexponent := head_exponent (afterFraction (afterDigits runes))
  have hpoint : head (exponent (afterFraction (afterDigits runes))) = '.' →
      isDigit (head (exponent (afterFraction (afterDigits runes))).tail) = false :=
    fun h => absurd h hexponent.2
  have hrest : isDigit (head (fraction (afterDigits runes) ++
      exponent (afterFraction (afterDigits runes)))) = false := by
    rw [head_append (by decide) hexponent.1]
    exact head_fraction _
  have hdigits : afterDigits (digits runes) = [] := by
    rw [afterDigits, digits_digits, List.drop_length]
  have hfraction : afterFraction (fraction (afterDigits runes)) = [] := by
    rw [afterFraction, fraction_fraction, List.drop_length]
  have hparts : (number runes).1 = digits runes ++ (fraction (afterDigits runes) ++
      exponent (afterFraction (afterDigits runes))) := by
    rw [number_eq, List.append_assoc]
  rw [hparts, number_eq, digits_append hrest, digits_digits, afterDigits_append hrest, hdigits,
    List.nil_append, fraction_append hexponent.1 hpoint, fraction_fraction,
    afterFraction_append hexponent.1 hpoint, hfraction, List.nil_append, exponent_exponent,
    number_eq runes]

end Idempotent

end PeakLang.Scan
