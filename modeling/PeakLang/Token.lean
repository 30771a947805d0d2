import PeakLang.Pos

namespace PeakLang

/-- The kinds of tokens. `illegal` is a character that starts no token, or a string that is not
closed; `eof` is the end of the source. -/
inductive TokenKind where
  | illegal | eof
  | ident | intLit | floatLit | stringLit
  | kwLet | kwConst | kwItem | kwOrder | kwBrew | kwPull | kwBlend | kwRistretto | kwEspresso
  | kwTamp | kwServe | kwRemake | kwShot | kwAnd | kwOr | kwNot | kwTrue | kwFalse
  | plus | minus | star | slash | percent | power
  | eq | neq | lt | gt | leq | geq
  | assign | increment | decrement | arrow
  | lparen | rparen | lbrace | rbrace | lbracket | rbracket
  | comma | colon | dot | question
deriving DecidableEq

namespace TokenKind

/-- All kinds; the place of a kind in this list is its ordinal. -/
def all : List TokenKind :=
  [illegal, eof, ident, intLit, floatLit, stringLit,
   kwLet, kwConst, kwItem, kwOrder, kwBrew, kwPull, kwBlend, kwRistretto, kwEspresso,
   kwTamp, kwServe, kwRemake, kwShot, kwAnd, kwOr, kwNot, kwTrue, kwFalse,
   plus, minus, star, slash, percent, power,
   eq, neq, lt, gt, leq, geq,
   assign, increment, decrement, arrow,
   lparen, rparen, lbrace, rbrace, lbracket, rbracket,
   comma, colon, dot, question]

/-- The name of a kind, as messages spell it. -/
def name : TokenKind → Text
  | illegal => "ILLEGAL"
  | eof => "EOF"
  | ident => "IDENT"
  | intLit => "INT_LIT"
  | floatLit => "FLOAT_LIT"
  | stringLit => "STRING_LIT"
  | kwLet => "LET"
  | kwConst => "CONST"
  | kwItem => "ITEM"
  | kwOrder => "ORDER"
  | kwBrew => "BREW"
  | kwPull => "PULL"
  | kwBlend => "BLEND"
  | kwRistretto => "RISTRETTO"
  | kwEspresso => "ESPRESSO"
  | kwTamp => "TAMP"
  | kwServe => "SERVE"
  | kwRemake => "REMAKE"
  | kwShot => "SHOT"
  | kwAnd => "AND"
  | kwOr => "OR"
  | kwNot => "NOT"
  | kwTrue => "TRUE"
  | kwFalse => "FALSE"
  | plus => "PLUS"
  | minus => "MINUS"
  | star => "STAR"
  | slash => "SLASH"
  | percent => "PERCENT"
  | power => "POWER"
  | eq => "EQ"
  | neq => "NEQ"
  | lt => "LT"
  | gt => "GT"
  | leq => "LEQ"
  | geq => "GEQ"
  | assign => "ASSIGN"
  | increment => "INCREMENT"
  | decrement => "DECREMENT"
  | arrow => "ARROW"
  | lparen => "LPAREN"
  | rparen => "RPAREN"
  | lbrace => "LBRACE"
  | rbrace => "RBRACE"
  | lbracket => "LBRACKET"
  | rbracket => "RBRACKET"
  | comma => "COMMA"
  | colon => "COLON"
  | dot => "DOT"
  | question => "QUESTION"

/-- The spelling of the kinds that have only one; the others have none. -/
def spelling? : TokenKind → Option Text
  | illegal | eof | ident | intLit | floatLit | stringLit => none
  | kwLet => some "let"
  | kwConst => some "const"
  | kwItem => some "item"
  | kwOrder => some "order"
  | kwBrew => some "brew"
  | kwPull => some "pull"
  | kwBlend => some "blend"
  | kwRistretto => some "ristretto"
  | kwEspresso => some "espresso"
  | kwTamp => some "tamp"
  | kwServe => some "serve"
  | kwRemake => some "remake"
  | kwShot => some "shot"
  | kwAnd => some "and"
  | kwOr => some "or"
  | kwNot => some "not"
  | kwTrue => some "true"
  | kwFalse => some "false"
  | plus => some "+"
  | minus => some "-"
  | star => some "*"
  | slash => some "/"
  | percent => some "%"
  | power => some "**"
  | eq => some "=="
  | neq => some "!="
  | lt => some "<"
  | gt => some ">"
  | leq => some "<="
  | geq => some ">="
  | assign => some "="
  | increment => some "++"
  | decrement => some "--"
  | arrow => some "->"
  | lparen => some "("
  | rparen => some ")"
  | lbrace => some "\x7b"
  | rbrace => some "\x7d"
  | lbracket => some "["
  | rbracket => some "]"
  | comma => some ","
  | colon => some ":"
  | dot => some "."
  | question => some "?"

def isOperator : TokenKind → Bool
  | plus | minus | star | slash | percent | power | eq | neq | lt | gt | leq | geq
  | kwAnd | kwOr | kwNot => true
  | _ => false

/-- How listings show a kind: an operator as it is spelled, anything else by its name. -/
def symbol (k : TokenKind) : Text :=
  if k.isOperator then k.spelling?.getD k.name else k.name

/-- The words of the language. -/
def keywords : List TokenKind :=
  [kwLet, kwConst, kwItem, kwOrder, kwBrew, kwPull, kwBlend, kwRistretto, kwEspresso,
   kwTamp, kwServe, kwRemake, kwShot, kwAnd, kwOr, kwNot, kwTrue, kwFalse]

/-- The kind of a word: a keyword, or an identifier. -/
def ofWord (word : Text) : TokenKind :=
  (keywords.find? fun k => k.spelling? == some word).getD ident

def ofOrdinal? (n : Int) : Option TokenKind :=
  if n < 0 then none else all[n.toNat]?

def ofName? (n : Text) : Option TokenKind := all.find? fun k => k.name == n

/-- How a kind that does not exist is named. -/
def unknownName (n : Int) : Text := "TokenType(" ++ Text.ofInt n ++ ")"

end TokenKind

/-- A token: its kind, the text it is written as, and where that text starts. The literal of an
unclosed string is a message instead, and that of the end of the source is empty. -/
structure Token where
  kind : TokenKind
  literal : Text
  pos : Pos
deriving DecidableEq

end PeakLang
