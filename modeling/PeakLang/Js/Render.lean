import PeakLang.Js
import PeakLang.Listing
import PeakLang.Number.Shortest
import PeakLang.Number.Word

namespace PeakLang.Js

/-- A byte of a string as it is written between quotes. -/
def escape (b : UInt8) : Text :=
  if b == 92 then "\\\\"
  else if b == 34 then "\\\""
  else if b == 10 then "\\n"
  else if b == 13 then "\\r"
  else if b == 9 then "\\t"
  else [b]

def stringLiteral (value : Text) : Text := "\"" ++ value.flatMap escape ++ "\""

namespace Expr

mutual

def text : Expr → Text
  | undefined => "undefined"
  | dangling => []
  | int value => Word.text value
  | float value => value.text
  | string value => stringLiteral value
  | bool value => Text.ofBool value
  | name n => n
  | code c => c
  | this => "this"
  | paren inner => "(" ++ inner.text ++ ")"
  | unary op operand => op ++ operand.text
  | binary op left right => left.text ++ " " ++ op ++ " " ++ right.text
  | conditional test consequent alternate =>
    test.text ++ " ? " ++ consequent.text ++ " : " ++ alternate.text
  | call callee args => callee.text ++ "(" ++ Text.join ", " (textOfAll args) ++ ")"
  | new cls args => "new " ++ cls.text ++ "(" ++ Text.join ", " (textOfAll args) ++ ")"
  | index object i => object.text ++ "[" ++ i.text ++ "]"
  | member object n => object.text ++ "." ++ n.text
  | array elements => "[" ++ Text.join "," (textOfAll elements) ++ "]"

def textOfAll : List Expr → List Text
  | [] => []
  | e :: rest => e.text :: textOfAll rest

end

/-- Several names with commas between them. -/
def commas (names : List Expr) : Text := Text.join ", " (textOfAll names)

end Expr

/-- The constructor of a class, which sets a field from each parameter. -/
def constructorLines (depth : Nat) (fields : List Expr) : Listing :=
  .entry depth ("constructor(" ++ Expr.commas fields ++ ") \x7b") ::
    ((fields.map fun f => .entry (depth + 1) ("this." ++ f.text ++ " = " ++ f.text ++ ";")) ++
      [.entry depth "\x7d"])

mutual

def Stmt.lines (depth : Nat) : Stmt → Listing
  | .declare name init => [.entry depth ("let " ++ name.text ++ " = " ++ init.text ++ ";")]
  | .function name params body =>
    .entry depth ("function " ++ name.text ++ "(" ++ Expr.commas params ++ ") \x7b") ::
      (Stmt.linesOfAll (depth + 1) body ++ [.entry depth "\x7d"])
  | .cls name fields methods =>
    .entry depth ("class " ++ name.text ++ " \x7b") ::
      (constructorLines (depth + 1) fields ++ Method.linesOfAll (depth + 1) methods ++
        [.entry depth "\x7d"])
  | .assign target source => [.entry depth (target.text ++ " = " ++ source.text ++ ";")]
  | .bump .increment target => [.entry depth (target.text ++ "++;")]
  | .bump .decrement target => [.entry depth (target.text ++ "--;")]
  | .branch b => b.lines depth []
  | .loop test body =>
    .entry depth ("while (" ++ test.text ++ ") \x7b") ::
      (Stmt.linesOfAll (depth + 1) body ++ [.entry depth "\x7d"])
  | .forOf name collection body =>
    .entry depth ("for (let " ++ name.text ++ " of " ++ collection.text ++ ") \x7b") ::
      (Stmt.linesOfAll (depth + 1) body ++ [.entry depth "\x7d"])
  | .leave => [.entry depth "break;"]
  | .ret none => [.entry depth "return;"]
  | .ret (some value) => [.entry depth ("return " ++ value.text ++ ";")]
  | .log value => [.entry depth ("console.log(" ++ value.text ++ ");")]
  | .eval value => [.entry depth (value.text ++ ";")]

def Method.lines (depth : Nat) : Method → Listing
  | .mk name params body =>
    .entry depth (name.text ++ "(" ++ Expr.commas params ++ ") \x7b") ::
      (Stmt.linesOfAll (depth + 1) body ++ [.entry depth "\x7d"])

/-- The lines of a branch; its first line starts with `opening`. -/
def Branch.lines (depth : Nat) (opening : Text) : Branch → Listing
  | .mk test body otherwise =>
    .entry depth (opening ++ "if (" ++ test.text ++ ") \x7b") ::
      (Stmt.linesOfAll (depth + 1) body ++ otherwise.lines depth)

/-- The lines from the closing brace of a branch's body on. -/
def Otherwise.lines (depth : Nat) : Otherwise → Listing
  | .nothing => [.entry depth "\x7d"]
  | .block body =>
    .entry depth "\x7d else \x7b" :: (Stmt.linesOfAll (depth + 1) body ++ [.entry depth "\x7d"])
  | .chain next => next.lines depth "\x7d else "

def Stmt.linesOfAll (depth : Nat) : List Stmt → Listing
  | [] => []
  | s :: rest => s.lines depth ++ Stmt.linesOfAll depth rest

def Method.linesOfAll (depth : Nat) : List Method → Listing
  | [] => []
  | m :: rest => m.lines depth ++ Method.linesOfAll depth rest

end

def Program.text (program : Program) : Text := Listing.render (Stmt.linesOfAll 0 program)

end PeakLang.Js
