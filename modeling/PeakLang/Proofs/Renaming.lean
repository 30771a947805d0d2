import Mathlib.Logic.Equiv.Basic
import PeakLang.Entity
import PeakLang.Proofs.Ty

namespace PeakLang

/-- New names for names. -/
structure Renaming where
  apply : Text → Text
  injective : Function.Injective apply
  builtin : ∀ e ∈ Entity.builtins, apply e.name = e.name

instance : CoeFun Renaming fun _ => Text → Text := ⟨Renaming.apply⟩

/-- Two names that nothing built in has, exchanged. -/
def Renaming.swap (a b : Text) (ha : ∀ e ∈ Entity.builtins, e.name ≠ a)
    (hb : ∀ e ∈ Entity.builtins, e.name ≠ b) : Renaming where
  apply := Equiv.swap a b
  injective := (Equiv.swap a b).injective
  builtin e he := Equiv.swap_apply_of_ne_of_ne (ha e he) (hb e he)

/-- No name becomes another. -/
def Renaming.none : Renaming where
  apply := id
  injective := Function.injective_id
  builtin _ _ := rfl

variable (r : Renaming)

theorem Renaming.beq (name name' : Text) : (r name == r name') = (name == name') := by
  rw [Bool.eq_iff_iff, beq_iff_eq, beq_iff_eq, r.injective.eq_iff]

def ClassRef.renamed (c : ClassRef) : ClassRef := ⟨c.id, r c.name⟩

theorem ClassRef.renamed_injective : Function.Injective (ClassRef.renamed r) := by
  rintro ⟨id, name⟩ ⟨id', name'⟩ h
  obtain ⟨hid, hname⟩ := ClassRef.mk.inj h
  exact congrArg₂ ClassRef.mk hid (r.injective hname)

theorem ClassRef.renamed_beq (c d : ClassRef) : (c.renamed r == d.renamed r) = (c == d) := by
  rw [Bool.eq_iff_iff, beq_iff_eq, beq_iff_eq, (renamed_injective r).eq_iff]

namespace Ty

mutual

/-- A type with its classes renamed. -/
def renamed : Ty → Ty
  | untyped => .untyped
  | prim p => .prim p
  | array base => .array base.renamed
  | optional base => .optional base.renamed
  | function params result => .function (renamedAll params) result.renamed
  | cls c => .cls (c.renamed r)

def renamedAll : List Ty → List Ty
  | [] => []
  | t :: rest => t.renamed :: renamedAll rest

end

theorem renamedAll_eq_map (ts : List Ty) : renamedAll r ts = ts.map (renamed r) := by
  induction ts with
  | nil => rfl
  | cons t rest ih => rw [renamedAll, ih, List.map_cons]

mutual

theorem renamed_none (t : Ty) : t.renamed .none = t := by
  cases t with
  | untyped | prim | cls => rfl
  | array base | optional base => rw [renamed, renamed_none base]
  | function params result => rw [renamed, renamedAll_none params, renamed_none result]

theorem renamedAll_none (ts : List Ty) : renamedAll .none ts = ts := by
  cases ts with
  | nil => rfl
  | cons t rest => rw [renamedAll, renamed_none t, renamedAll_none rest]

end

mutual

theorem equivalent_renamed (a b : Ty) :
    equivalent (a.renamed r) (b.renamed r) = equivalent a b := by
  cases a with
  | untyped | prim => cases b <;> rfl
  | array a =>
    cases b with
    | array b => exact equivalent_renamed a b
    | _ => rfl
  | optional a =>
    cases b with
    | optional b => exact equivalent_renamed a b
    | _ => rfl
  | function params result =>
    cases b with
    | function params' result' =>
      simp only [renamed, equivalent, equivalentAll_renamed params params',
        equivalent_renamed result result']
    | _ => rfl
  | cls c =>
    cases b with
    | cls d => exact c.renamed_beq r d
    | _ => rfl

theorem equivalentAll_renamed (as bs : List Ty) :
    equivalentAll (renamedAll r as) (renamedAll r bs) = equivalentAll as bs := by
  cases as with
  | nil => cases bs <;> rfl
  | cons a as =>
    cases bs with
    | nil => rfl
    | cons b bs =>
      simp only [renamedAll, equivalentAll, equivalent_renamed a b, equivalentAll_renamed as bs]

end

theorem isPrim_renamed (p : Prim) (t : Ty) : (t.renamed r).isPrim p = t.isPrim p := by
  cases t <;> rfl

theorem isFunction_renamed (t : Ty) : (t.renamed r).isFunction = t.isFunction := by
  cases t <;> rfl

theorem isNumeric_renamed (t : Ty) : (t.renamed r).isNumeric = t.isNumeric := by
  simp only [isNumeric, isPrim_renamed]

mutual

theorem fits_renamed (forward : Bool) (a b : Ty) :
    fits forward (a.renamed r) (b.renamed r) = fits forward a b := by
  by_cases h : a.isFunction = true ∧ b.isFunction = true
  · match a, b with
    | function params result, function params' result' =>
      simp only [renamed, fits, fitAll_renamed (!forward) params params',
        fits_renamed forward result result']
  · have h' : ¬ ((a.renamed r).isFunction = true ∧ (b.renamed r).isFunction = true) := by
      rwa [isFunction_renamed, isFunction_renamed]
    rw [fits_of_not_functions _ h, fits_of_not_functions _ h', equivalent_renamed]
    cases forward with
    | true => exact congrArg (· || _) (isPrim_renamed r .any b)
    | false => exact congrArg (· || _) (isPrim_renamed r .any a)

theorem fitAll_renamed (forward : Bool) (as bs : List Ty) :
    fitAll forward (renamedAll r as) (renamedAll r bs) = fitAll forward as bs := by
  cases as with
  | nil => cases bs <;> rfl
  | cons a as =>
    cases bs with
    | nil => rfl
    | cons b bs =>
      simp only [renamedAll, fitAll, fits_renamed forward a b, fitAll_renamed forward as bs]

end

theorem assignable_renamed (a b : Ty) :
    assignable (a.renamed r) (b.renamed r) = assignable a b := fits_renamed r true a b

end Ty

def Signature.renamed (s : Signature) : Signature := ⟨Ty.renamedAll r s.params, s.result.renamed r⟩

theorem Signature.type_renamed (s : Signature) : (s.renamed r).type = s.type.renamed r := rfl

theorem Signature.renamed_none (s : Signature) : s.renamed .none = s := by
  rw [renamed, Ty.renamedAll_none, Ty.renamed_none]

theorem Signature.map_renamed_none (s : Option Signature) : s.map (renamed .none) = s := by
  rw [funext renamed_none, Option.map_id']

/-- The type of what may have a signature, with its classes renamed. -/
theorem Signature.type_map_renamed (s : Option Signature) :
    ((s.map (Signature.renamed r)).map Signature.type).getD .untyped =
      ((s.map Signature.type).getD .untyped).renamed r := by
  cases s <;> rfl

def Variable.renamed (v : Variable) : Variable := { v with name := r v.name, type := v.type.renamed r }

theorem Variable.renamed_none (v : Variable) : v.renamed .none = v := by
  rw [renamed, Ty.renamed_none]
  rfl

/-- A function by another name. -/
def Function.renamed (f : Function) : Function :=
  { f with name := r f.name, signature := f.signature.map (Signature.renamed r) }

theorem Function.renamed_none (f : Function) : f.renamed .none = f := by
  rw [renamed, Signature.map_renamed_none]
  rfl

theorem Function.type_renamed (f : Function) : (f.renamed r).type = f.type.renamed r :=
  Signature.type_map_renamed r f.signature

def Field.renamed (f : Field) : Field := { f with name := r f.name, type := f.type.renamed r }

theorem Field.renamed_none (f : Field) : f.renamed .none = f := by
  rw [renamed, Ty.renamed_none]
  rfl

/-- A method by another name. -/
def Method.renamed (m : Method) : Method :=
  { m with name := r m.name, signature := m.signature.map (Signature.renamed r) }

theorem Method.renamed_none (m : Method) : m.renamed .none = m := by
  rw [renamed, Signature.map_renamed_none]
  rfl

theorem Method.type_renamed (m : Method) : (m.renamed r).type = m.type.renamed r :=
  Signature.type_map_renamed r m.signature

/-- A class with its members by other names. -/
def Class.renamed (c : Class) : Class :=
  ⟨c.ref.renamed r, c.fields.map (Field.renamed r), c.methods.map (Option.map (Method.renamed r))⟩

namespace Class

theorem renamed_none (c : Class) : c.renamed .none = c := by
  rw [renamed, funext Field.renamed_none, funext Method.renamed_none, List.map_id', Option.map_id_fun',
    List.map_id]
  rfl

theorem field?_renamed (c : Class) (name : Text) :
    (c.renamed r).field? (r name) = (c.field? name).map (Field.renamed r) := by
  have hsame : (fun f : Field => f.name == r name) ∘ Field.renamed r = fun f => f.name == name :=
    funext fun f => r.beq f.name name
  rw [field?, renamed, List.find?_map, hsame, field?]

theorem method?_renamed (c : Class) (name : Text) :
    (c.renamed r).method? (r name) = (c.method? name).map (Method.renamed r) := by
  have hsame : (fun m => m.all fun m : Method => m.name == r name) ∘ Option.map (Method.renamed r) =
      fun m => m.all fun m => m.name == name := by
    funext m
    cases m with
    | none => rfl
    | some m => exact r.beq m.name name
  rw [method?, renamed, List.find?_map, hsame, Option.join_map_eq_map_join, method?]

theorem constructor_renamed (c : Class) :
    (c.renamed r).constructor = c.constructor.renamed r := by
  simp only [constructor, renamed, Signature.renamed, Ty.renamedAll_eq_map, List.map_map]
  rfl

theorem ofMembers_renamed (ref : ClassRef) (fields : List (Text × Ty))
    (methods : List (Text × Option Signature)) :
    ofMembers (ref.renamed r) (fields.map fun f => (r f.1, f.2.renamed r))
        (methods.map fun m => (r m.1, m.2.map (Signature.renamed r))) =
      (ofMembers ref fields methods).renamed r := by
  rw [ofMembers, renamed, mk.injEq]
  refine ⟨rfl, List.ext_getElem? fun i => ?_, List.ext_getElem? fun i => ?_⟩
  · simp only [List.getElem?_mapIdx, List.getElem?_map, ofMembers, Option.map_map]
    rfl
  · simp only [List.getElem?_mapIdx, List.getElem?_map, ofMembers, Option.map_map]
    rfl

end Class

end PeakLang
