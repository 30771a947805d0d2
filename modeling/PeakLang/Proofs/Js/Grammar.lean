import PeakLang.Number.Binary64
import PeakLang.Text

namespace PeakLang.Js

/-- Operators with two operands. -/
inductive Operator where
  | or | and | eq | ne | lt | gt | le | ge | add | sub | mul | div | rem | pow
deriving DecidableEq

/-- How tightly an operator binds. -/
def Operator.level : Operator → Nat
  | or => 1
  | and => 2
  | eq | ne => 3
  | lt | gt | le | ge => 4
  | add | sub => 5
  | mul | div | rem => 6
  | pow => 7

/-- Operators with one operand. -/
inductive Sign where
  | minus | not
deriving DecidableEq

/-- Nodes of parse trees. Parentheses leave no node; a spread is a node of its own, in an array or among
arguments. -/
inductive Node where
  | name (n : Text)
  | this
  | number (value : Nat)
  | float (value : Binary64)
  | string (value : Text)
  | bool (value : Bool)
  | array (elements : List Node)
  | arrow (param : Text) (body : Node)
  | spread (x : Node)
  | unary (sign : Sign) (x : Node)
  | binary (op : Operator) (x y : Node)
  | conditional (test consequent alternate : Node)
  | call (callee : Node) (args : List Node)
  | new (cls : Node) (args : List Node)
  | index (object i : Node)
  | member (object : Node) (n : Text)

/-- Tokens. A minus is an operator and a sign. -/
inductive Token where
  | name (n : Text)
  | number (value : Nat)
  | string (value : Text)
  | bool (value : Bool)
  | this | new
  | op (op : Operator)
  | not
  | lparen | rparen | lbracket | rbracket
  | comma | dot | spread | question | colon | arrow
deriving DecidableEq

def Sign.token : Sign → Token
  | minus => .op .sub
  | not => .not

/-- What the grammar has rules for: an expression, the operations of a level and those that bind more
tightly, and so on down to the operands that nothing can split, and the items of an array or a call. -/
inductive Phrase where
  | expression
  | operation (level : Nat)
  | signed
  | called
  | accessed
  | primary
  | item
  | items
deriving DecidableEq

/-- What a phrase is parsed to. -/
abbrev Phrase.Result : Phrase → Type
  | items => List Node
  | _ => Node

/-- The rules of the grammar.
* `Expression = Operation1 ("?" Expression ":" Expression)? | "(" name ")" "=>" Expression`
* `Operation n = Operation n (operator of level n) Operation (n + 1) | Operation (n + 1)`, up to 6
* `Operation 7 = Called "**" Operation 7 | Signed`
* `Signed = ("-" | "!") Signed | Called`
* `Called = Called ("(" Items ")" | "[" Expression "]" | "." name) | Accessed`
* `Accessed = Accessed ("[" Expression "]" | "." name) | "new" Accessed "(" Items ")" | Primary`
* `Primary = name | "this" | literal | "[" Items "]" | "(" Expression ")"`
* `Items = (Item ("," Item)*)?`
* `Item = "..."? Expression` -/
inductive Derives : (p : Phrase) → List Token → p.Result → Prop where
  | operation {ts : List Token} {x : Node} :
    Derives (.operation 1) ts x → Derives .expression ts x
  | conditional {ts us vs : List Token} {test consequent alternate : Node} :
    Derives (.operation 1) ts test → Derives .expression us consequent →
    Derives .expression vs alternate →
    Derives .expression (ts ++ .question :: (us ++ .colon :: vs))
      (.conditional test consequent alternate)
  | arrow {n : Text} {ts : List Token} {body : Node} :
    Derives .expression ts body →
    Derives .expression (.lparen :: .name n :: .rparen :: .arrow :: ts) (.arrow n body)
  | tighter {level : Nat} {ts : List Token} {x : Node} :
    level < 7 → Derives (.operation (level + 1)) ts x → Derives (.operation level) ts x
  -- Operators associate to the left, ...
  | binary {op : Operator} {ts us : List Token} {x y : Node} :
    op ≠ .pow → Derives (.operation op.level) ts x → Derives (.operation (op.level + 1)) us y →
    Derives (.operation op.level) (ts ++ .op op :: us) (.binary op x y)
  -- ... but powers to the right.
  | power {ts us : List Token} {x y : Node} :
    Derives .called ts x → Derives (.operation 7) us y →
    Derives (.operation 7) (ts ++ .op .pow :: us) (.binary .pow x y)
  | signed {ts : List Token} {x : Node} : Derives .signed ts x → Derives (.operation 7) ts x
  | unary {sign : Sign} {ts : List Token} {x : Node} :
    Derives .signed ts x → Derives .signed (sign.token :: ts) (.unary sign x)
  | called {ts : List Token} {x : Node} : Derives .called ts x → Derives .signed ts x
  | call {ts us : List Token} {x : Node} {args : List Node} :
    Derives .called ts x → Derives .items us args →
    Derives .called (ts ++ .lparen :: (us ++ [.rparen])) (.call x args)
  | index {ts us : List Token} {x i : Node} :
    Derives .called ts x → Derives .expression us i →
    Derives .called (ts ++ .lbracket :: (us ++ [.rbracket])) (.index x i)
  | member {ts : List Token} {x : Node} {n : Text} :
    Derives .called ts x → Derives .called (ts ++ [.dot, .name n]) (.member x n)
  | accessed {ts : List Token} {x : Node} : Derives .accessed ts x → Derives .called ts x
  | accessedIndex {ts us : List Token} {x i : Node} :
    Derives .accessed ts x → Derives .expression us i →
    Derives .accessed (ts ++ .lbracket :: (us ++ [.rbracket])) (.index x i)
  | accessedMember {ts : List Token} {x : Node} {n : Text} :
    Derives .accessed ts x → Derives .accessed (ts ++ [.dot, .name n]) (.member x n)
  | new {ts us : List Token} {x : Node} {args : List Node} :
    Derives .accessed ts x → Derives .items us args →
    Derives .accessed (.new :: (ts ++ .lparen :: (us ++ [.rparen]))) (.new x args)
  | primary {ts : List Token} {x : Node} : Derives .primary ts x → Derives .accessed ts x
  | name {n : Text} : Derives .primary [.name n] (.name n)
  | this : Derives .primary [.this] .this
  | number {value : Nat} : Derives .primary [.number value] (.number value)
  | string {value : Text} : Derives .primary [.string value] (.string value)
  | bool {value : Bool} : Derives .primary [.bool value] (.bool value)
  | array {ts : List Token} {elements : List Node} :
    Derives .items ts elements → Derives .primary (.lbracket :: (ts ++ [.rbracket])) (.array elements)
  | parenthesized {ts : List Token} {x : Node} :
    Derives .expression ts x → Derives .primary (.lparen :: (ts ++ [.rparen])) x
  | plain {ts : List Token} {x : Node} : Derives .expression ts x → Derives .item ts x
  | spread {ts : List Token} {x : Node} :
    Derives .expression ts x → Derives .item (.spread :: ts) (.spread x)
  | none : Derives .items [] []
  | one {ts : List Token} {x : Node} : Derives .item ts x → Derives .items ts [x]
  | more {ts us : List Token} {x y : Node} {rest : List Node} :
    Derives .item ts x → Derives .items us (y :: rest) →
    Derives .items (ts ++ .comma :: us) (x :: y :: rest)

end PeakLang.Js
