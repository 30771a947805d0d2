import PeakLang.Token.StringLiteral

namespace PeakLang.StringLiteral

theorem unescape_cons_of_ne {b : UInt8} (h : b ≠ backslash) (rest : Text) :
    unescape (b :: rest) = b :: unescape rest := by
  cases rest with
  | nil => rfl
  | cons letter rest => rw [unescape, if_neg (by simpa using h)]

theorem unescape_escape (b : UInt8) (rest : Text) : unescape (escape b ++ rest) = b :: unescape rest := by
  unfold escape
  split
  case isTrue h =>
    have hvalue : escaped? b = some b := by
      rw [Bool.or_eq_true, beq_iff_eq, beq_iff_eq] at h
      obtain rfl | rfl := h <;> rfl
    simp [unescape, hvalue]
  case isFalse h =>
    split
    case isTrue hb => rw [beq_iff_eq.mp hb]; rfl
    case isFalse =>
      split
      case isTrue hb => rw [beq_iff_eq.mp hb]; rfl
      case isFalse => exact unescape_cons_of_ne (fun hb => h (by simp [hb])) rest

theorem unescape_flatMap_escape (value : Text) : unescape (value.flatMap escape) = value := by
  induction value with
  | nil => rfl
  | cons b rest ih => rw [List.flatMap_cons, unescape_escape, ih]

theorem body_encode (value : Text) : body (encode value) = value.flatMap escape := by
  simp [body, encode, List.getLast?_cons, List.getLast?_append]

theorem decode_encode (value : Text) : decode (encode value) = value := by
  rw [decode, body_encode, unescape_flatMap_escape]

end PeakLang.StringLiteral
