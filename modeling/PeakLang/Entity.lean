import PeakLang.Ty

namespace PeakLang

/-- The parameter types and the result type of a function. -/
structure Signature where
  params : List Ty
  result : Ty
deriving DecidableEq

namespace Signature

def type (s : Signature) : Ty := .function s.params s.result

end Signature

/-- A variable, a parameter, the variable of a loop, or a built-in constant. -/
structure Variable where
  id : Nat
  name : Text
  type : Ty
  readOnly : Bool
  builtin : Bool
deriving DecidableEq

/-- A function; its signature is not known before its head has been read. -/
structure Function where
  id : Nat
  name : Text
  signature : Option Signature
  builtin : Bool
deriving DecidableEq

namespace Function

def type (f : Function) : Ty := (f.signature.map Signature.type).getD .untyped

end Function

/-- A field of a class, at a place among its fields. -/
structure Field where
  owner : Nat
  place : Nat
  name : Text
  type : Ty
deriving DecidableEq

/-- A method of a class, at a place among its methods. The signature does not count the receiver. -/
structure Method where
  owner : Nat
  place : Nat
  name : Text
  signature : Option Signature
deriving DecidableEq

namespace Method

def type (m : Method) : Ty := (m.signature.map Signature.type).getD .untyped

end Method

/-- A class. A method that it lists may be missing. -/
structure Class where
  ref : ClassRef
  fields : List Field
  methods : List (Option Method)
deriving DecidableEq

namespace Class

/-- The class with fields and methods, in order. -/
def ofMembers (ref : ClassRef) (fields : List (Text × Ty))
    (methods : List (Text × Option Signature)) : Class where
  ref
  fields := fields.mapIdx fun i (name, type) => ⟨ref.id, i, name, type⟩
  methods := methods.mapIdx fun i (name, signature) => some ⟨ref.id, i, name, signature⟩

/-- Whether every method that a class lists is there. -/
def isWhole (c : Class) : Bool := c.methods.all Option.isSome

def field? (c : Class) (name : Text) : Option Field := c.fields.find? fun f => f.name == name

/-- The method of a name. None is found past one that is missing. -/
def method? (c : Class) (name : Text) : Option Method :=
  (c.methods.find? fun m => m.all fun m => m.name == name).join

theorem mem_of_method? {c : Class} {name : Text} {m : Method} (h : c.method? name = some m) :
    some m ∈ c.methods :=
  List.mem_of_find?_eq_some (Option.join_eq_some_iff.mp h)

/-- The signature of making an instance: a parameter for each field. -/
def constructor (c : Class) : Signature := ⟨c.fields.map Field.type, .cls c.ref⟩

end Class

/-- What a name stands for. Each variable, function and class has an identity of its own, so that two of
one name are told apart; a field or a method is known by its class and its place there. -/
inductive Entity where
  | var (v : Variable)
  | function (f : Function)
  | type (name : Text) (type : Ty)
deriving DecidableEq

namespace Entity

def name : Entity → Text
  | var v => v.name
  | function f => f.name
  | type n _ => n

/-- A built-in function. -/
def builtin (id : Nat) (name : Text) (params : List Ty) (result : Ty) : Entity :=
  .function ⟨id, name, some ⟨params, result⟩, true⟩

/-- The built-in constant and functions. -/
def builtinValues : List Entity :=
  [.var ⟨0, "π", .affogato, true, true⟩,
   builtin 1 "sqrt" [.affogato] .affogato,
   builtin 2 "sin" [.affogato] .affogato,
   builtin 3 "cos" [.affogato] .affogato,
   builtin 4 "exp" [.affogato] .affogato,
   builtin 5 "ln" [.affogato] .affogato,
   builtin 6 "hypot" [.affogato, .affogato] .affogato,
   builtin 7 "bytes" [.roast] (.array .pump),
   builtin 8 "codepoints" [.roast] (.array .pump)]

/-- Everything that is built in. -/
def builtins : List Entity :=
  (Prim.all.map fun p => .type p.name (.prim p)) ++ builtinValues

/-- The first identity that no built-in entity has. -/
def firstFree : Nat := 9

end Entity

end PeakLang
