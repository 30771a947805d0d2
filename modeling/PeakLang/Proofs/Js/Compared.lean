import PeakLang.Proofs.Js.Structure
import PeakLang.Proofs.Text.Units
import PeakLang.Proofs.Typed.Fold
import PeakLang.Typed.Simplify

namespace PeakLang.Js

section Evaluation

/-- What JavaScript makes of a comparison of two strings, by their code units. -/
def Operator.compared? (op : Operator) (x y : List UInt16) : Option Bool :=
  match op with
  | .eq => some (x == y)
  | .ne => some (x != y)
  | .lt => some (decide (x < y))
  | .gt => some (decide (y < x))
  | .le => some (!decide (y < x))
  | .ge => some (!decide (x < y))
  | _ => none

/-- The truth value of a constant or of a comparison of two string constants. -/
def Node.truth? : Node → Option Bool
  | .bool value => some value
  | .binary op (.string x) (.string y) => op.compared? (Text.units x) (Text.units y)
  | _ => none

/-- Whether JavaScript reads a text as an expression with a truth value. -/
def Evaluates (text : Text) (value : Bool) : Prop := ∃ x, Parses text x ∧ x.truth? = some value

def Logs (program : Typed.Program) (value : Bool) : Prop :=
  ∃ text, generateText program = "console.log(" ++ text ++ ");\n" ∧ Evaluates text value

theorem Logs.of_print {e : Typed.Expr} {value : Bool} (h : Evaluates (expr e []).1.text value) :
    Logs [.print e] value := by
  refine ⟨(expr e []).1.text, ?_, h⟩
  have hline : generateText [.print e] =
      Listing.render [.entry 0 ("console.log(" ++ (expr e []).1.text ++ ");")] := rfl
  rw [hline]
  simp [Listing.render, Line.render, Line.entry, Text.repeated]
  rfl

end Evaluation

section Comparisons

def comparisons : List TokenKind := [.eq, .neq, .lt, .leq, .gt, .geq]

theorem bool_evaluates (value : Bool) (names : Names) :
    Evaluates (expr (.bool value) names).1.text value :=
  ⟨.bool value, (Written.bool value).operand.plain.parses, rfl⟩

variable {op : TokenKind}

/-- A comparison of string constants is read as such. -/
theorem comparison_parses (hop : op ∈ comparisons) (a b : Text) (type : Ty) (names : Names) :
    Parses (expr (.binary op (.string a) (.string b) type) names).1.text
      (.binary (operatorOf op) (.string a) (.string b)) := by
  have hmark : (operator op, Token.op (operatorOf op)) ∈ marks ∧ operatorOf op ≠ .pow ∧
      (op == .power) = false ∧ (op == .slash) = false := by
    simp only [comparisons, List.mem_cons, List.not_mem_nil, or_false] at hop
    obtain rfl | rfl | rfl | rfl | rfl | rfl := hop <;> decide
  obtain ⟨hmark, hpow, hpower, hslash⟩ := hmark
  have hwhole : (expr (.binary op (.string a) (.string b) type) names).1 =
      .paren (.binary (operator op) (.string a) (.string b)) := by
    change operation op (startsWithSign (.string a)) (.string a) (.string b) type = _
    simp only [operation, hpower, hslash, Bool.false_and, if_neg Bool.false_ne_true]
  have hstring : ∀ s : Text, Written false .signed (stringLiteral s) (.string s) :=
    fun s => (Written.string s).operand.unpointed.signed
  rw [hwhole]
  exact (Written.binary hmark hpow (hstring a) (hstring b)).paren.operand.plain.parses

/-- What the comparisons of two constants are folded to. -/
theorem strings_comparisons (a b : Text) :
    Typed.Fold.strings .eq a b = some (.bool (a == b)) ∧
      Typed.Fold.strings .neq a b = some (.bool (a != b)) ∧
      Typed.Fold.strings .lt a b = some (.bool (Text.precedes a b)) ∧
      Typed.Fold.strings .leq a b = some (.bool (!Text.precedes b a)) ∧
      Typed.Fold.strings .gt a b = some (.bool (Text.precedes b a)) ∧
      Typed.Fold.strings .geq a b = some (.bool (!Text.precedes a b)) := by
  simp only [Typed.Fold.strings, Typed.Fold.comparison, Typed.Fold.order]
  rcases Typed.Fold.precedes_cases a b with ⟨hab, hba, hne⟩ | ⟨hab, hba, hne⟩ | ⟨hab, hba, rfl⟩ <;>
    simp [*, bne]

/-- The order of bytes tells what the order of units does, unless the strings cross. -/
theorem precedes_eq_iff (a b : String) :
    Text.precedes a b = decide (Text.units a < Text.units b) ↔
      Text.crosses a.toList b.toList = false := by
  by_cases hcrosses : Text.crosses a.toList b.toList = true
  · have hunits : decide (Text.units a < Text.units b) = Text.precedes b a := by
      rw [Text.precedes, decide_eq_decide, Text.units_lt_iff, if_pos hcrosses]
    rw [hunits, hcrosses]
    rcases Typed.Fold.precedes_cases a b with ⟨hab, hba, -⟩ | ⟨hab, hba, -⟩ | ⟨-, -, heq⟩
    · simp [hab, hba]
    · simp [hab, hba]
    · -- Equal strings do not cross.
      rw [Text.ofString_inj.mp heq, Text.crosses_self] at hcrosses
      cases hcrosses
  · have hunits : decide (Text.units a < Text.units b) = Text.precedes a b := by
      rw [Text.precedes, decide_eq_decide, Text.units_lt_iff, if_neg hcrosses]
    rw [hunits, Bool.eq_false_iff.mpr hcrosses]
    exact iff_of_true rfl rfl

/-- Folding gives what JavaScript makes of a comparison if this is for equality or the strings do not
cross, and only then. -/
theorem strings_agree_iff (hop : op ∈ comparisons) (a b : String) :
    ∃ folded kept, Typed.Fold.strings op a b = some (.bool folded) ∧
      (operatorOf op).compared? (Text.units a) (Text.units b) = some kept ∧
      (folded = kept ↔ op = .eq ∨ op = .neq ∨ Text.crosses a.toList b.toList = false) := by
  obtain ⟨heq, hne, hlt, hle, hgt, hge⟩ := strings_comparisons a b
  have hab := precedes_eq_iff a b
  have hba := precedes_eq_iff b a
  rw [Text.crosses_comm] at hba
  simp only [comparisons, List.mem_cons, List.not_mem_nil, or_false] at hop
  obtain rfl | rfl | rfl | rfl | rfl | rfl := hop
  · refine ⟨_, _, heq, rfl, iff_of_true ?_ (.inl rfl)⟩
    rw [Bool.eq_iff_iff, beq_iff_eq, beq_iff_eq, Text.units_eq_iff]
  · refine ⟨_, _, hne, rfl, iff_of_true ?_ (.inr (.inl rfl))⟩
    rw [Bool.eq_iff_iff, bne_iff_ne, bne_iff_ne, Ne, Ne, Text.units_eq_iff]
  · exact ⟨_, _, hlt, rfl, by simpa using hab⟩
  · exact ⟨_, _, hle, rfl, by simpa using hba⟩
  · exact ⟨_, _, hgt, rfl, by simpa using hba⟩
  · exact ⟨_, _, hge, rfl, by simpa using hab⟩

theorem simplify_comparison (hop : op ∈ comparisons) {a b : Text} {folded : Bool}
    (hfold : Typed.Fold.strings op a b = some (.bool folded)) (type : Ty) :
    (Typed.Expr.binary op (.string a) (.string b) type).simplify = .bool folded := by
  have hlogical : Typed.Expr.logical? op (.string a) (.string b) = none := by
    simp only [comparisons, List.mem_cons, List.not_mem_nil, or_false] at hop
    obtain rfl | rfl | rfl | rfl | rfl | rfl := hop <;> rfl
  change Typed.Expr.simplifiedBinary op (.string a) (.string b) type = _
  rw [Typed.Expr.simplifiedBinary, hlogical]
  change (Typed.Fold.strings op a b).getD _ = _
  rw [hfold, Option.getD_some]

/-- Folding a comparison of two strings comes to what JavaScript makes of the comparison, both for the
expression, whatever names were given before it, and for the program that prints it, if it compares for
equality or if the first difference of the strings is not between a character from U+E000 to U+FFFF and
one past U+FFFF, and only then. -/
theorem comparison_folded_iff (hop : op ∈ comparisons) (a b : String) (type : Ty) :
    ∃ folded kept, Typed.Fold.strings op a b = some (.bool folded) ∧
      (∀ names, Evaluates
        (expr (Typed.Expr.binary op (.string a) (.string b) type).simplify names).1.text folded) ∧
      (∀ names, Evaluates (expr (.binary op (.string a) (.string b) type) names).1.text kept) ∧
      Logs (Typed.Program.simplify [.print (.binary op (.string a) (.string b) type)]) folded ∧
      Logs [.print (.binary op (.string a) (.string b) type)] kept ∧
      (folded = kept ↔ op = .eq ∨ op = .neq ∨ Text.crosses a.toList b.toList = false) := by
  obtain ⟨folded, kept, hfold, hkept, hiff⟩ := strings_agree_iff hop a b
  have hsimple := simplify_comparison hop hfold type
  have hevaluates : ∀ names,
      Evaluates (expr (.binary op (.string a) (.string b) type) names).1.text kept :=
    fun names => ⟨_, comparison_parses hop a b type names, hkept⟩
  refine ⟨folded, kept, hfold, fun names => ?_, hevaluates, ?_, .of_print (hevaluates []), hiff⟩
  · rw [hsimple]
    exact bool_evaluates folded names
  · have hprogram : Typed.Program.simplify [.print (.binary op (.string a) (.string b) type)] =
        [.print (.bool folded)] := by
      rw [← hsimple]
      rfl
    rw [hprogram]
    exact .of_print (bool_evaluates folded [])

/-- A character of one unit against a pair of surrogates, after the same beginning: the two orders agree,
since the unit comes before all surrogates. -/
theorem comparison_folded_iff_beans :
    TokenKind.geq ∈ comparisons ∧ Text.crosses "a豆".toList "a😀".toList = false ∧
      ∃ folded kept, Typed.Fold.strings .geq "a豆" "a😀" = some (.bool folded) ∧
        Logs (Typed.Program.simplify
          [.print (.binary .geq (.string "a豆") (.string "a😀") .boolean)]) folded ∧
        Logs [.print (.binary .geq (.string "a豆") (.string "a😀") .boolean)] kept ∧ folded = kept := by
  have hop : TokenKind.geq ∈ comparisons := by decide
  have hcrosses : Text.crosses "a豆".toList "a😀".toList = false := by decide
  obtain ⟨folded, kept, hfold, -, -, hsimple, hkept, hiff⟩ :=
    comparison_folded_iff hop "a豆" "a😀" .boolean
  exact ⟨hop, hcrosses, folded, kept, hfold, hsimple, hkept, hiff.mpr (.inr (.inr hcrosses))⟩

private def tildeComparison : Typed.Expr := .binary .lt (.string "～") (.string "😀") .boolean

private def tildeComparisonTree : Tree.Program :=
  [.print (.binary .lt (.string "～" ⟨1, 8⟩) (.string "😀" ⟨1, 14⟩) ⟨1, 12⟩) ⟨1, 1⟩]

/-- U+FF5E comes before U+1F600 by bytes and after it by units, so a program that compares them prints
one thing if it is simplified and another if it is not. -/
theorem logs_ne_fullwidthTilde :
    Tree.Parser.parse "remake \"～\" < \"😀\"" = ⟨tildeComparisonTree, []⟩ ∧
      Analysis.analyze tildeComparisonTree = .ok [.print tildeComparison] ∧
      Typed.Fold.strings .lt "～" "😀" = some (.bool true) ∧
      Logs (Typed.Program.simplify [.print tildeComparison]) true ∧
      Logs [.print tildeComparison] false := by
  have htokens : Token.tokenize "remake \"～\" < \"😀\"" =
      [⟨.kwRemake, "remake", ⟨1, 1⟩⟩, ⟨.stringLit, "\"～\"", ⟨1, 8⟩⟩, ⟨.lt, "<", ⟨1, 12⟩⟩,
        ⟨.stringLit, "\"😀\"", ⟨1, 14⟩⟩, ⟨.eof, "", ⟨1, 17⟩⟩] := by
    decide +kernel
  have hparse : Tree.Parser.parse "remake \"～\" < \"😀\"" = ⟨tildeComparisonTree, []⟩ := by
    rw [Tree.Parser.parse, htokens]
    rfl
  have hkept : Evaluates (expr tildeComparison []).1.text false :=
    ⟨_, comparison_parses (by decide) "～" "😀" .boolean [], by decide⟩
  exact ⟨hparse, rfl, rfl, .of_print (bool_evaluates true []), .of_print hkept⟩

end Comparisons

end PeakLang.Js
