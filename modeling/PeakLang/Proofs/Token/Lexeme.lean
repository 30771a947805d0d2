import PeakLang.Token.Scan
import PeakLang.Token.StringLiteral

namespace PeakLang

namespace Lexeme

/-- The text of a name: a word that is no keyword. -/
def IsName (t : Text) : Prop :=
  ∃ cs : List Char, t = Rune.encode (cs.map .scalar) ∧ (∃ c ∈ cs.head?, Scan.startsWord c = true) ∧
    (∀ c ∈ cs, Scan.inWord c = true) ∧ TokenKind.ofWord t = .ident

/-- The text of a number, with or without a fraction or an exponent. -/
def IsNumber (fractional : Bool) (t : Text) : Prop :=
  ∃ cs : List Char, t = Rune.encode (cs.map .scalar) ∧ (∃ c ∈ cs.head?, Scan.isDigit c = true) ∧
    Scan.number (cs.map .scalar) = (cs.map .scalar, fractional)

/-- What a string in a source may stand for: it holds no NUL, which would end the source. -/
def IsStringValue (t : Text) : Prop := 0 ∉ t

end Lexeme

/-- Whether the text of a token fits its kind. -/
def Token.Lexical (t : Token) : Prop :=
  match t.kind with
  | .ident => Lexeme.IsName t.literal
  | .intLit => Lexeme.IsNumber false t.literal
  | .floatLit => Lexeme.IsNumber true t.literal
  | .stringLit => Lexeme.IsStringValue (StringLiteral.decode t.literal)
  | _ => True

end PeakLang
