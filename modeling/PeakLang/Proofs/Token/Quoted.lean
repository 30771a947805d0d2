import PeakLang.Proofs.Text.Replace
import PeakLang.Proofs.Token.StringLiteral
import PeakLang.Proofs.Token.Tokenize

namespace PeakLang

namespace StringLiteral

/-- A text with its backslashes, then its quotes, then its line ends and tabulators written as
escapes. -/
def escapeAll (value : Text) : Text :=
  value.replacedAll [(backslash, [backslash, backslash]), (quote, [backslash, quote]),
    (10, [backslash, 110]), (9, [backslash, 116])]

/-- Replacing one byte after another escapes each byte once: backslashes are replaced before those of
the other escapes are there. -/
theorem escapeAll_eq (value : Text) : escapeAll value = value.flatMap escape := by
  refine Text.replacedAll_eq_flatMap (fun b => ?_) value
  by_cases hbackslash : b = backslash
  · rw [hbackslash]
    rfl
  by_cases hquote : b = quote
  · rw [hquote]
    rfl
  by_cases hline : b = 10
  · rw [hline]
    rfl
  by_cases htab : b = 9
  · rw [htab]
    rfl
  rw [Text.replacedAll_singleton_of_forall_ne (by simp [hbackslash, hquote, hline, htab])]
  simp [escape, hbackslash, hquote, hline, htab]

end StringLiteral

namespace Token

open StringLiteral (encode decode)

/-- Whether a text is read as one string literal. -/
def IsString (t : Text) : Prop :=
  ∃ last, tokenize t = [⟨.stringLit, t, .start⟩, ⟨.eof, [], last⟩]

theorem isString_encode {value : Text} (h : 0 ∉ value) : IsString (encode value) := by
  obtain ⟨last, hnext⟩ := Scan.next_string (Scan.quoted_encode h) [] .start
  rw [List.append_nil] at hnext
  have hend : Scan.next ⟨[], last⟩ = (⟨.eof, [], last⟩, ⟨[], last.rightBy 1⟩) := rfl
  have hquote : StringLiteral.quote < 0x80 := by decide
  obtain ⟨limit, hlimit⟩ : ∃ limit, (Rune.decode (encode value)).length + 1 = limit + 1 + 1 := by
    rw [encode, Rune.decode_ascii_cons hquote]
    exact ⟨_, rfl⟩
  refine ⟨last, ?_⟩
  rw [tokenize, hlimit, Cursor.ofText, Scan.upToEnd, hnext]
  change _ :: Scan.upToEnd (limit + 1) ⟨[], last⟩ = _
  rw [Scan.upToEnd, hend]
  rfl

/-- A text without NUL is written as one string literal that stands for it; and what a string literal
of a source stands for is written as one string literal that stands for the same. -/
theorem quoted_roundTrip :
    (∀ value : Text, 0 ∉ value →
      encode value = StringLiteral.quote :: (StringLiteral.escapeAll value ++ [StringLiteral.quote]) ∧
        IsString (encode value) ∧ decode (encode value) = value) ∧
      ∀ source, ∀ t ∈ tokenize source, t.kind = .stringLit →
        IsString (encode (decode t.literal)) ∧
          decode (encode (decode t.literal)) = decode t.literal := by
  constructor
  · intro value h
    refine ⟨?_, isString_encode h, StringLiteral.decode_encode value⟩
    rw [StringLiteral.escapeAll_eq, encode]
  · intro source t ht hkind
    obtain ⟨words, last, htokens, hlast, hwords⟩ := Scan.tokenize_complete source
    rw [htokens, List.mem_append, List.mem_singleton] at ht
    have hlexical : t.Lexical := by
      obtain ht | rfl := ht
      · exact (hwords t ht).2
      · rw [hlast] at hkind
        cases hkind
    have hvalue : Lexeme.IsStringValue (decode t.literal) := by
      rw [Token.Lexical, hkind] at hlexical
      exact hlexical
    exact ⟨isString_encode hvalue, StringLiteral.decode_encode _⟩

/-- A text with a backslash before a quote, a line end, a tabulator, a carriage return and bytes that
are no character: a lone lead byte before a quote, and a lone byte that continues a sequence. -/
private def spoiled : Text := [92, 34, 10, 9, 13, 0xE2, 34, 0x82, 92]

/-- A source with a literal that holds an escape of no meaning and a stray byte. -/
private def spoiledSource : Text := [34, 92, 113, 0xFF, 92, 92, 34]

theorem quoted_roundTrip_spoiled :
    (0 ∉ spoiled ∧ IsString (encode spoiled) ∧ decode (encode spoiled) = spoiled) ∧
      ∃ t ∈ tokenize spoiledSource, t.kind = .stringLit ∧ IsString (encode (decode t.literal)) ∧
        decode (encode (decode t.literal)) = [92, 113, 0xFF, 92] := by
  obtain ⟨hvalue, hsource⟩ := quoted_roundTrip
  have hzero : 0 ∉ spoiled := by decide
  have hmem : (⟨.stringLit, spoiledSource, .start⟩ : Token) ∈ tokenize spoiledSource := by
    decide +kernel
  obtain ⟨hstring, hagain⟩ := hsource spoiledSource _ hmem rfl
  refine ⟨⟨hzero, (hvalue spoiled hzero).2⟩, _, hmem, rfl, hstring, ?_⟩
  rw [hagain]
  decide

end Token

end PeakLang
