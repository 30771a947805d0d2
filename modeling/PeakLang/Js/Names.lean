import PeakLang.Entity
import PeakLang.Js

namespace PeakLang.Js

/-- What gets a name, by its identity. -/
inductive EntityKey where
  | var (id : Nat)
  | function (id : Nat)
  | cls (id : Nat)
  | field (owner place : Nat)
  | method (owner place : Nat)
deriving DecidableEq

/-- The names given so far, in the order of their requests. -/
abbrev Names := List (EntityKey × Text)

namespace Names

/-- The name of an entity, which it gets now if it has none. -/
def request (key : EntityKey) (sourceName : Text) (names : Names) : Text × Names :=
  match names.lookup key with
  | some name => (name, names)
  | none =>
    let name := sourceName ++ "_" ++ Text.ofNat (names.length + 1)
    (name, names ++ [(key, name)])

end Names

/-- The JavaScript text of what is built in. -/
def builtins : List (Text × Text) :=
  [("π", "Math.PI"),
   ("sqrt", "Math.sqrt"),
   ("sin", "Math.sin"),
   ("cos", "Math.cos"),
   ("exp", "Math.exp"),
   ("ln", "Math.log"),
   ("hypot", "Math.hypot"),
   ("bytes", "((s) => [...new TextEncoder().encode(s)])"),
   ("codepoints", "((s) => [...s].map((c) => c.codePointAt(0)))")]

/-- The JavaScript text of a built-in name; an unknown one has none. -/
def builtin (name : Text) : Expr := .code ((builtins.lookup name).getD [])

/-- Generation, which gives names as it goes. -/
abbrev Gen := StateM Names

def nameOf (key : EntityKey) (sourceName : Text) : Gen Expr :=
  modifyGet fun names =>
    let (name, names) := names.request key sourceName
    (.name name, names)

def varName : Option Variable → Gen Expr
  | none => return .dangling
  | some v => if v.builtin then return builtin v.name else nameOf (.var v.id) v.name

def functionName : Option Function → Gen Expr
  | none => return .dangling
  | some f => if f.builtin then return builtin f.name else nameOf (.function f.id) f.name

def className : Option ClassRef → Gen Expr
  | none => return .dangling
  | some c => nameOf (.cls c.id) c.name

def fieldName (f : Field) : Gen Expr := nameOf (.field f.owner f.place) f.name

def methodName : Option PeakLang.Method → Gen Expr
  | none => return .dangling
  | some m => nameOf (.method m.owner m.place) m.name

end PeakLang.Js
