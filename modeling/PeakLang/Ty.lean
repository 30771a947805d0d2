import PeakLang.Text

namespace PeakLang

/-- The types that are built in. -/
inductive Prim where
  | pump | affogato | roast | boolean | none | any
deriving DecidableEq

namespace Prim

/-- The name of a built-in type. -/
def name : Prim → Text
  | pump => "pump"
  | affogato => "affogato"
  | roast => "roast"
  | boolean => "boolean"
  | none => "none"
  | any => "any"

/-- All built-in types. -/
def all : List Prim := [pump, affogato, roast, boolean, none, any]

end Prim

/-- A class by its identity, with the name that it is shown by. -/
structure ClassRef where
  id : Nat
  name : Text
deriving DecidableEq

/-- Types; `untyped` stands where a type is not known. -/
inductive Ty where
  | untyped
  | prim (p : Prim)
  | array (base : Ty)
  | optional (base : Ty)
  | function (params : List Ty) (result : Ty)
  | cls (ref : ClassRef)

namespace Ty

/-- Integers. -/
def pump : Ty := .prim .pump

/-- Floating-point numbers. -/
def affogato : Ty := .prim .affogato

/-- Strings. -/
def roast : Ty := .prim .roast

/-- Truth values. -/
def boolean : Ty := .prim .boolean

/-- The type of nothing, which a function without a result returns. -/
def none : Ty := .prim .none

/-- The type of everything. -/
def any : Ty := .prim .any

/-- Whether a type is a built-in one. -/
def isPrim (p : Prim) : Ty → Bool
  | prim q => p == q
  | _ => false

/-- Whether a type is known. -/
def isTyped : Ty → Bool
  | untyped => false
  | _ => true

/-- Whether a type is a function type. -/
def isFunction : Ty → Bool
  | function _ _ => true
  | _ => false

/-- The types of numbers. -/
def isNumeric (t : Ty) : Bool := t.isPrim .pump || t.isPrim .affogato

mutual

/-- Whether two types are the same type. -/
def equivalent : Ty → Ty → Bool
  | untyped, untyped => true
  | prim p, prim q => p == q
  | array a, array b => equivalent a b
  | optional a, optional b => equivalent a b
  | function params result, function params' result' =>
    equivalentAll params params' && equivalent result result'
  | cls c, cls d => c == d
  | _, _ => false

def equivalentAll : List Ty → List Ty → Bool
  | [], [] => true
  | a :: as, b :: bs => equivalent a b && equivalentAll as bs
  | _, _ => false

end

mutual

/-- Whether a value of one of two types may be stored where the other is expected: the first may be
stored as the second if `forward`, the second as the first otherwise. Parameters go the other way than
the function. -/
def fits (forward : Bool) : Ty → Ty → Bool
  | function params result, function params' result' =>
    fitAll (!forward) params params' && fits forward result result'
  | a, b => (if forward then b else a).isPrim .any || equivalent a b

def fitAll (forward : Bool) : List Ty → List Ty → Bool
  | [], [] => true
  | a :: as, b :: bs => fits forward a b && fitAll forward as bs
  | _, _ => false

end

/-- Whether a value of the type `source` may be stored where `target` is expected. -/
def assignable (source target : Ty) : Bool := fits true source target

mutual

/-- A type as it is written. An optional function type is put in parentheses, as it would otherwise
read as a function with an optional result. -/
def describe : Ty → Text
  | untyped => "<untyped>"
  | prim p => p.name
  | array base => "[" ++ describe base ++ "]"
  | optional base =>
    if base.isFunction then "(" ++ describe base ++ ")?" else describe base ++ "?"
  | function params result =>
    "(" ++ Text.join "," (describeAll params) ++ ")->" ++ describe result
  | cls c => c.name

def describeAll : List Ty → List Text
  | [] => []
  | t :: rest => describe t :: describeAll rest

end

mutual

theorem equivalent_self (t : Ty) : equivalent t t = true := by
  cases t with
  | untyped => rfl
  | prim p => simp [equivalent]
  | array base => simpa [equivalent] using equivalent_self base
  | optional base => simpa [equivalent] using equivalent_self base
  | function params result =>
    simp [equivalent, equivalentAll_self params, equivalent_self result]
  | cls c => simp [equivalent]

theorem equivalentAll_self (ts : List Ty) : equivalentAll ts ts = true := by
  cases ts with
  | nil => rfl
  | cons t rest => simp [equivalentAll, equivalent_self t, equivalentAll_self rest]

end

mutual

theorem eq_of_equivalent {a b : Ty} (h : equivalent a b = true) : a = b := by
  match a, b with
  | untyped, untyped => rfl
  | prim p, prim q => simpa [equivalent] using h
  | array a, array b =>
    rw [eq_of_equivalent (a := a) (b := b) (by simpa [equivalent] using h)]
  | optional a, optional b =>
    rw [eq_of_equivalent (a := a) (b := b) (by simpa [equivalent] using h)]
  | function ps r, function qs s =>
    simp only [equivalent, Bool.and_eq_true] at h
    rw [eq_of_equivalentAll h.1, eq_of_equivalent h.2]
  | cls c, cls d => simpa [equivalent] using h
  | untyped, prim _ | untyped, array _ | untyped, optional _ | untyped, function _ _
  | untyped, cls _ | prim _, untyped | prim _, array _ | prim _, optional _
  | prim _, function _ _ | prim _, cls _ | array _, untyped | array _, prim _
  | array _, optional _ | array _, function _ _ | array _, cls _ | optional _, untyped
  | optional _, prim _ | optional _, array _ | optional _, function _ _ | optional _, cls _
  | function _ _, untyped | function _ _, prim _ | function _ _, array _
  | function _ _, optional _ | function _ _, cls _ | cls _, untyped | cls _, prim _
  | cls _, array _ | cls _, optional _ | cls _, function _ _ => simp [equivalent] at h

theorem eq_of_equivalentAll {as bs : List Ty} (h : equivalentAll as bs = true) : as = bs := by
  match as, bs with
  | [], [] => rfl
  | a :: as, b :: bs =>
    simp only [equivalentAll, Bool.and_eq_true] at h
    rw [eq_of_equivalent h.1, eq_of_equivalentAll h.2]
  | [], _ :: _ | _ :: _, [] => simp [equivalentAll] at h

end

/-- Equivalent types are equal, as a class carries its identity. -/
theorem equivalent_iff_eq {a b : Ty} : equivalent a b = true ↔ a = b :=
  ⟨eq_of_equivalent, fun h => h ▸ equivalent_self a⟩

instance : DecidableEq Ty := fun _ _ => decidable_of_iff _ equivalent_iff_eq

end Ty

end PeakLang
