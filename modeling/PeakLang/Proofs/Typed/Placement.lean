import PeakLang.Proofs.Typed.Preserve

namespace PeakLang.Typed

/-- What a statement may lie in; branches do not count. -/
inductive Enclosure where
  | loop
  | function (fn : Option Function)
  | method (cls : Option Class) (method : Option Method)

namespace Enclosure

/-- The signature of a function or a method. -/
def signature : Enclosure → Option Signature
  | loop => none
  | function f => f.bind Function.signature
  | method _ m => m.bind Method.signature

/-- The innermost function or method. -/
def owner? : List Enclosure → Option Enclosure
  | [] => none
  | loop :: rest => owner? rest
  | function f :: _ => some (function f)
  | method c m :: _ => some (method c m)

/-- The signature of the innermost function or method. -/
def signature? (around : List Enclosure) : Option Signature := (owner? around).bind signature

end Enclosure

/-- A statement and what lies around it, from the inside out. -/
structure Site where
  around : List Enclosure
  stmt : Stmt

mutual

/-- A statement and the statements in it, at any depth, each with what lies around it. -/
def Stmt.sites (around : List Enclosure) : Stmt → List Site
  | .function f params body =>
    ⟨around, .function f params body⟩ :: Stmt.sitesInAll (.function f :: around) body
  | .cls c methods => ⟨around, .cls c methods⟩ :: MethodBody.sitesInAll around c methods
  | .branch test consequent alternate =>
    ⟨around, .branch test consequent alternate⟩ ::
      (Stmt.sitesInAll around consequent ++ Stmt.sitesInAll around alternate)
  | .shortBranch test consequent =>
    ⟨around, .shortBranch test consequent⟩ :: Stmt.sitesInAll around consequent
  | .loop test body => ⟨around, .loop test body⟩ :: Stmt.sitesInAll (.loop :: around) body
  | .forEach v collection body =>
    ⟨around, .forEach v collection body⟩ :: Stmt.sitesInAll (.loop :: around) body
  | s => [⟨around, s⟩]

def MethodBody.sites (around : List Enclosure) (c : Option Class) : MethodBody → List Site
  | .mk m _ body => Stmt.sitesInAll (.method c m :: around) body

def Stmt.sitesInAll (around : List Enclosure) : List Stmt → List Site
  | [] => []
  | s :: rest => s.sites around ++ Stmt.sitesInAll around rest

def MethodBody.sitesInAll (around : List Enclosure) (c : Option Class) : List MethodBody → List Site
  | [] => []
  | m :: rest => m.sites around c ++ MethodBody.sitesInAll around c rest

end

/-- The statements of a program, at any depth, each with what lies around it. -/
def Program.sites (program : Program) : List Site := Stmt.sitesInAll [] program

namespace Site

/-- A break lies in a loop, with no function or method between them. The object of a method is named
for the class of the innermost method only, with no function between them. -/
structure Confined (p : Site) : Prop where
  leave : p.stmt = .leave → p.around.head? = some .loop
  self : ∀ e ∈ p.stmt.exprs, ∀ c, .self c ∈ e.parts →
    ∃ cls m, Enclosure.owner? p.around = some (.method (some cls) m) ∧ c = some cls.ref

/-- A return has a value exactly if the innermost function or method has a result, and the value may be
stored as this result. -/
structure WellPlaced (p : Site) : Prop extends p.Confined where
  ret : ∀ value, p.stmt = .ret value → ∃ s, Enclosure.signature? p.around = some s ∧
    (value ≠ .missing ↔ s.result ≠ .none) ∧
    (value ≠ .missing → value.type.assignable s.result = true)

end Site

mutual

/-- No statement is left out. -/
theorem Stmt.map_stmt_sites (s : Stmt) (around : List Enclosure) :
    (s.sites around).map Site.stmt = s.parts := by
  cases s with
  | function f params body =>
    rw [Stmt.sites, Stmt.parts, List.map_cons, Stmt.map_stmt_sitesInAll]
  | cls c methods =>
    rw [Stmt.sites, Stmt.parts, List.map_cons, MethodBody.map_stmt_sitesInAll]
  | branch test consequent alternate =>
    rw [Stmt.sites, Stmt.parts, List.map_cons, List.map_append, Stmt.map_stmt_sitesInAll,
      Stmt.map_stmt_sitesInAll]
  | shortBranch test body | loop test body | forEach v collection body =>
    rw [Stmt.sites, Stmt.parts, List.map_cons, Stmt.map_stmt_sitesInAll]
  | _ => rfl

theorem MethodBody.map_stmt_sites (m : MethodBody) (around : List Enclosure) (c : Option Class) :
    (m.sites around c).map Site.stmt = m.parts := by
  obtain ⟨method, params, body⟩ := m
  rw [MethodBody.sites, MethodBody.parts, Stmt.map_stmt_sitesInAll]

theorem Stmt.map_stmt_sitesInAll (ss : List Stmt) (around : List Enclosure) :
    (Stmt.sitesInAll around ss).map Site.stmt = Stmt.partsOfAll ss := by
  cases ss with
  | nil => rfl
  | cons s rest =>
    rw [Stmt.sitesInAll, Stmt.partsOfAll, List.map_append, Stmt.map_stmt_sites,
      Stmt.map_stmt_sitesInAll]

theorem MethodBody.map_stmt_sitesInAll (ms : List MethodBody) (around : List Enclosure)
    (c : Option Class) :
    (MethodBody.sitesInAll around c ms).map Site.stmt = MethodBody.partsOfAll ms := by
  cases ms with
  | nil => rfl
  | cons m rest =>
    rw [MethodBody.sitesInAll, MethodBody.partsOfAll, List.map_append, MethodBody.map_stmt_sites,
      MethodBody.map_stmt_sitesInAll]

end

section Returns

variable {classes : List Class} {around : List Enclosure} {function : Option Signature}

/-- Whether a statement, if it is a return, obeys the rule of the innermost function or method. -/
def Site.Returns (classes : List Class) (p : Site) : Prop :=
  ∀ value, p.stmt = .ret value → ReturnRule classes (Enclosure.signature? p.around) value

theorem Site.returns_of_ne {s : Stmt} (h : ∀ value, s ≠ .ret value) :
    Site.Returns classes ⟨around, s⟩ := fun value hret => absurd hret (h value)

mutual

/-- Statements that obey the rules return what the function around them asks for. -/
theorem Stmt.WellTyped.returns (s : Stmt) {around : List Enclosure} {function : Option Signature}
    (h : s.WellTyped classes function) (haround : Enclosure.signature? around = function) :
    ∀ p ∈ s.sites around, p.Returns classes := by
  cases s with
  | function f params body =>
    obtain ⟨g, sig, rfl, hsig, -, -, hbody⟩ := h
    refine List.forall_mem_cons.mpr ⟨Site.returns_of_ne (by simp), ?_⟩
    exact Stmt.WellTypedAll.returns body hbody hsig
  | cls c methods =>
    obtain ⟨k, -, -, -, -, hbodies⟩ := h
    refine List.forall_mem_cons.mpr ⟨Site.returns_of_ne (by simp), ?_⟩
    exact MethodBody.WellTypedAll.returns methods hbodies
  | branch test consequent alternate =>
    refine List.forall_mem_cons.mpr ⟨Site.returns_of_ne (by simp), List.forall_mem_append.mpr ?_⟩
    exact ⟨Stmt.WellTypedAll.returns consequent h.2.2.1 haround,
      Stmt.WellTypedAll.returns alternate h.2.2.2 haround⟩
  | shortBranch test body | loop test body | forEach v collection body =>
    refine List.forall_mem_cons.mpr ⟨Site.returns_of_ne (by simp), ?_⟩
    exact Stmt.WellTypedAll.returns body h.2.2 haround
  | ret value =>
    refine List.forall_mem_singleton.mpr fun value' heq => ?_
    cases heq
    rw [haround]
    exact h
  | _ => exact List.forall_mem_singleton.mpr (Site.returns_of_ne (by simp))

theorem MethodBody.WellTyped.returns (m : MethodBody) {around : List Enclosure} {c : Option Class}
    (h : m.WellTyped classes) : ∀ p ∈ m.sites around c, p.Returns classes := by
  obtain ⟨method, params, body⟩ := m
  obtain ⟨n, sig, rfl, hsig, -, hbody⟩ := h
  exact Stmt.WellTypedAll.returns body hbody hsig

theorem Stmt.WellTypedAll.returns (ss : List Stmt) {around : List Enclosure}
    {function : Option Signature} (h : Stmt.WellTypedAll classes function ss)
    (haround : Enclosure.signature? around = function) :
    ∀ p ∈ Stmt.sitesInAll around ss, p.Returns classes := by
  cases ss with
  | nil => exact List.forall_mem_nil _
  | cons s rest =>
    exact List.forall_mem_append.mpr
      ⟨Stmt.WellTyped.returns s h.1 haround, Stmt.WellTypedAll.returns rest h.2 haround⟩

theorem MethodBody.WellTypedAll.returns (ms : List MethodBody) {around : List Enclosure}
    {c : Option Class} (h : MethodBody.WellTypedAll classes ms) :
    ∀ p ∈ MethodBody.sitesInAll around c ms, p.Returns classes := by
  cases ms with
  | nil => exact List.forall_mem_nil _
  | cons m rest =>
    exact List.forall_mem_append.mpr
      ⟨MethodBody.WellTyped.returns m h.1, MethodBody.WellTypedAll.returns rest h.2⟩

end

/-- What obeys the rules is missing exactly where nothing is returned. -/
theorem Site.Confined.wellPlaced {p : Site} (h : p.Confined) (hreturns : p.Returns classes) :
    p.WellPlaced where
  toConfined := h
  ret value heq := by
    obtain ⟨s, hs, hrule⟩ := hreturns value heq
    refine ⟨s, hs, ?_⟩
    rcases hrule with ⟨hresult, rfl⟩ | ⟨hresult, htyped, hfits⟩
    · simp [hresult]
    · have hvalue : value ≠ .missing := by
        rintro rfl
        exact htyped
      simp [hresult, hvalue, hfits]

/-- Whether every statement of a program, at any depth, is well placed. -/
structure Program.WellPlaced (program : Program) : Prop where
  complete : program.sites.map Site.stmt = Stmt.partsOfAll program
  sites : ∀ p ∈ program.sites, p.WellPlaced

/-- The statements of a program that obeys the rules are well placed if they are confined. -/
theorem Program.WellTyped.wellPlaced {program : Program} (h : program.WellTyped)
    (hconfined : ∀ p ∈ program.sites, p.Confined) : program.WellPlaced where
  complete := Stmt.map_stmt_sitesInAll program []
  sites p hp := (hconfined p hp).wellPlaced (Stmt.WellTypedAll.returns program h rfl p hp)

end Returns

namespace Expr

variable {x y : Expr} {op : TokenKind} {type : Ty} {c : Option ClassRef}

/-- A constant has no parts. -/
theorem parts_of_isLiteral {e : Expr} (h : e.isLiteral = true) : e.parts = [e] := by
  cases e with
  | int | float | string | bool => rfl
  | _ => cases h

theorem self_notMem_of_isLiteral {e : Expr} (h : e.isLiteral = true) : .self c ∉ e.parts := by
  rw [parts_of_isLiteral h, List.mem_singleton]
  rintro rfl
  cases h

theorem self_mem_simplifiedBinary (h : .self c ∈ (simplifiedBinary op x y type).parts) :
    .self c ∈ x.parts ∨ .self c ∈ y.parts := by
  have hbinary (h : .self c ∈ (binary op x y type).parts) : .self c ∈ x.parts ∨ .self c ∈ y.parts := by
    simpa [parts] using h
  unfold simplifiedBinary at h
  split at h
  · rename_i e hlogical
    rcases logical?_cases hlogical with rfl | rfl
    · exact .inl h
    · exact .inr h
  · split at h
    · cases hfold : Fold.binary op x y with
      | none => exact hbinary (by rwa [hfold] at h)
      | some e =>
        rw [hfold, Option.getD_some] at h
        exact absurd h (self_notMem_of_isLiteral (Fold.binary_isLiteral hfold))
    · cases hrule : algebraic? op x y type with
      | none => exact hbinary (by rwa [hrule] at h)
      | some e =>
        rw [hrule, Option.getD_some] at h
        cases algebraic?_identity hrule with
        | rightZero | rightOne | leftNothing | powerOfOne => exact .inl h
        | leftZero | leftOne | rightNothing => exact .inr h
        | opposite => exact .inr (by simpa [parts] using h)
        | zeroPower =>
          have hone : (oneOf type).isLiteral = true := by
            unfold oneOf
            split <;> rfl
          exact absurd h (self_notMem_of_isLiteral hone)

theorem self_mem_simplifiedUnary (h : .self c ∈ (simplifiedUnary op x type).parts) :
    .self c ∈ x.parts := by
  unfold simplifiedUnary at h
  cases hfold : Fold.unary op x with
  | none =>
    rw [hfold, Option.getD_none] at h
    simpa [parts] using h
  | some e =>
    rw [hfold, Option.getD_some] at h
    exact absurd h (self_notMem_of_isLiteral (Fold.unary_isLiteral hfold))

theorem self_mem_simplifiedConditional {test : Expr}
    (h : .self c ∈ (simplifiedConditional test x y type).parts) :
    .self c ∈ test.parts ∨ .self c ∈ x.parts ∨ .self c ∈ y.parts := by
  unfold simplifiedConditional at h
  split at h
  · exact .inr (.inl h)
  · exact .inr (.inr h)
  · simpa [parts] using h

mutual

/-- Simplifying an expression names no other object. -/
theorem self_mem_of_simplify (e : Expr) (h : .self c ∈ e.simplify.parts) : .self c ∈ e.parts := by
  cases e with
  | unary op operand type =>
    rw [parts]
    exact List.mem_cons_of_mem _ (self_mem_of_simplify operand (self_mem_simplifiedUnary h))
  | binary op left right type =>
    rw [parts]
    apply List.mem_cons_of_mem
    rw [List.mem_append]
    exact (self_mem_simplifiedBinary h).imp (self_mem_of_simplify left) (self_mem_of_simplify right)
  | conditional test consequent alternate type =>
    rw [parts]
    apply List.mem_cons_of_mem
    rw [List.mem_append, List.mem_append]
    exact (self_mem_simplifiedConditional h).imp (self_mem_of_simplify test) (Or.imp
      (self_mem_of_simplify consequent) (self_mem_of_simplify alternate))
  | call callee args type =>
    simp only [simplify, parts, List.mem_cons, reduceCtorEq, false_or, List.mem_append] at h ⊢
    exact h.imp (self_mem_of_simplify callee) (self_mem_of_simplifyAll args)
  | index object i type =>
    simp only [simplify, parts, List.mem_cons, reduceCtorEq, false_or, List.mem_append] at h ⊢
    exact h.imp (self_mem_of_simplify object) (self_mem_of_simplify i)
  | member object field method type =>
    simp only [simplify, parts, List.mem_cons, reduceCtorEq, false_or] at h ⊢
    exact self_mem_of_simplify object h
  | array elements type =>
    simp only [simplify, parts, List.mem_cons, reduceCtorEq, false_or] at h ⊢
    exact self_mem_of_simplifyAll elements h
  | _ => exact h

theorem self_mem_of_simplifyAll (es : List Expr) (h : .self c ∈ partsOfAll (simplifyAll es)) :
    .self c ∈ partsOfAll es := by
  cases es with
  | nil => exact h
  | cons e rest =>
    simp only [simplifyAll, partsOfAll, List.mem_append] at h ⊢
    exact h.imp (self_mem_of_simplify e) (self_mem_of_simplifyAll rest)

end

end Expr

section Simplify

variable {around : List Enclosure}

theorem Stmt.sitesInAll_append (ss ts : List Stmt) :
    Stmt.sitesInAll around (ss ++ ts) = Stmt.sitesInAll around ss ++ Stmt.sitesInAll around ts := by
  induction ss with
  | nil => rfl
  | cons s rest ih => rw [List.cons_append, Stmt.sitesInAll, Stmt.sitesInAll, ih, List.append_assoc]

theorem Stmt.sitesInAll_singleton (s : Stmt) : Stmt.sitesInAll around [s] = s.sites around :=
  List.append_nil _

/-- A statement whose expressions are simplified is confined as it was. -/
theorem Site.Confined.simplify {s t : Stmt} (h : Site.Confined ⟨around, s⟩)
    (hleave : t = .leave → s = .leave) (hexprs : t.exprs = s.exprs.map Expr.simplify) :
    Site.Confined ⟨around, t⟩ where
  leave heq := h.leave (hleave heq)
  self e he c hc := by
    have he : e ∈ t.exprs := he
    rw [hexprs] at he
    obtain ⟨d, hd, rfl⟩ := List.mem_map.mp he
    exact h.self d hd c (d.self_mem_of_simplify hc)

mutual

/-- What a statement simplifies to is confined as the statement was. -/
theorem Stmt.confined_simplify (s : Stmt) {around : List Enclosure}
    (h : ∀ p ∈ s.sites around, p.Confined) :
    ∀ p ∈ Stmt.sitesInAll around s.simplify, p.Confined := by
  cases s with
  | function f params body =>
    obtain ⟨hself, hbody⟩ := List.forall_mem_cons.mp h
    rw [Stmt.simplify, Stmt.sitesInAll_singleton]
    exact List.forall_mem_cons.mpr ⟨hself.simplify (by simp) rfl, Stmt.confined_simplifyAll body hbody⟩
  | cls c methods =>
    obtain ⟨hself, hbodies⟩ := List.forall_mem_cons.mp h
    rw [Stmt.simplify, Stmt.sitesInAll_singleton]
    exact List.forall_mem_cons.mpr
      ⟨hself.simplify (by simp) rfl, MethodBody.confined_simplifyAll methods hbodies⟩
  | assign target source =>
    rw [Stmt.simplify]
    split
    case isTrue => exact List.forall_mem_nil _
    case isFalse =>
      exact List.forall_mem_singleton.mpr ((List.forall_mem_singleton.mp h).simplify (by simp) rfl)
  | branch test consequent alternate =>
    obtain ⟨hself, hbodies⟩ := List.forall_mem_cons.mp h
    obtain ⟨hconsequent, halternate⟩ := List.forall_mem_append.mp hbodies
    have hconsequent := Stmt.confined_simplifyAll consequent hconsequent
    have halternate := Stmt.confined_simplifyAll alternate halternate
    rw [Stmt.simplify]
    split
    case h_1 => exact hconsequent
    case h_2 => exact halternate
    case h_3 =>
      rw [Stmt.sitesInAll_singleton]
      exact List.forall_mem_cons.mpr ⟨hself.simplify (by simp) rfl,
        List.forall_mem_append.mpr ⟨hconsequent, halternate⟩⟩
  | shortBranch test consequent =>
    obtain ⟨hself, hconsequent⟩ := List.forall_mem_cons.mp h
    have hconsequent := Stmt.confined_simplifyAll consequent hconsequent
    rw [Stmt.simplify]
    split
    case h_1 => exact hconsequent
    case h_2 => exact List.forall_mem_nil _
    case h_3 =>
      rw [Stmt.sitesInAll_singleton]
      exact List.forall_mem_cons.mpr ⟨hself.simplify (by simp) rfl, hconsequent⟩
  | loop test body =>
    obtain ⟨hself, hbody⟩ := List.forall_mem_cons.mp h
    rw [Stmt.simplify]
    split
    case h_1 => exact List.forall_mem_nil _
    case h_2 =>
      rw [Stmt.sitesInAll_singleton]
      exact List.forall_mem_cons.mpr
        ⟨hself.simplify (by simp) rfl, Stmt.confined_simplifyAll body hbody⟩
  | forEach v collection body =>
    obtain ⟨hself, hbody⟩ := List.forall_mem_cons.mp h
    rw [Stmt.simplify]
    split
    case h_1 => exact List.forall_mem_nil _
    case h_2 =>
      rw [Stmt.sitesInAll_singleton]
      exact List.forall_mem_cons.mpr
        ⟨hself.simplify (by simp) rfl, Stmt.confined_simplifyAll body hbody⟩
  | leave => exact h
  | _ =>
    exact List.forall_mem_singleton.mpr ((List.forall_mem_singleton.mp h).simplify (by simp) rfl)

theorem MethodBody.confined_simplify (m : MethodBody) {around : List Enclosure} {c : Option Class}
    (h : ∀ p ∈ m.sites around c, p.Confined) : ∀ p ∈ m.simplify.sites around c, p.Confined := by
  obtain ⟨method, params, body⟩ := m
  exact Stmt.confined_simplifyAll body h

theorem Stmt.confined_simplifyAll (ss : List Stmt) {around : List Enclosure}
    (h : ∀ p ∈ Stmt.sitesInAll around ss, p.Confined) :
    ∀ p ∈ Stmt.sitesInAll around (Stmt.simplifyAll ss), p.Confined := by
  cases ss with
  | nil => exact h
  | cons s rest =>
    obtain ⟨hs, hrest⟩ := List.forall_mem_append.mp h
    rw [Stmt.simplifyAll, Stmt.sitesInAll_append]
    exact List.forall_mem_append.mpr ⟨Stmt.confined_simplify s hs, Stmt.confined_simplifyAll rest hrest⟩

theorem MethodBody.confined_simplifyAll (ms : List MethodBody) {around : List Enclosure}
    {c : Option Class} (h : ∀ p ∈ MethodBody.sitesInAll around c ms, p.Confined) :
    ∀ p ∈ MethodBody.sitesInAll around c (MethodBody.simplifyAll ms), p.Confined := by
  cases ms with
  | nil => exact h
  | cons m rest =>
    obtain ⟨hm, hrest⟩ := List.forall_mem_append.mp h
    exact List.forall_mem_append.mpr
      ⟨MethodBody.confined_simplify m hm, MethodBody.confined_simplifyAll rest hrest⟩

end

end Simplify

end PeakLang.Typed
