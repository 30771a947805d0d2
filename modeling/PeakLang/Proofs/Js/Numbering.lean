import Mathlib.Data.List.Induction
import Mathlib.Data.List.Nodup
import PeakLang.Js.Generate
import PeakLang.Proofs.Text.Decimal

namespace PeakLang.Js

/-- A request for a name: the key of an entity, and its name in the source. -/
abbrev Request := EntityKey × Text

section Requests

/-- What a reference to a variable asks for; nothing if the variable is built in or not there. -/
def askVar : Option Variable → List Request
  | none => []
  | some v => if v.builtin then [] else [(.var v.id, v.name)]

/-- What a reference to a function asks for; nothing if the function is built in or not there. -/
def askFunction : Option Function → List Request
  | none => []
  | some f => if f.builtin then [] else [(.function f.id, f.name)]

/-- What a reference to a class asks for. -/
def askClass : Option ClassRef → List Request
  | none => []
  | some c => [(.cls c.id, c.name)]

/-- What a reference to a field asks for. -/
def askField (f : Field) : List Request := [(.field f.owner f.place, f.name)]

/-- What a reference to a method asks for. -/
def askMethod : Option PeakLang.Method → List Request
  | none => []
  | some m => [(.method m.owner m.place, m.name)]

mutual

/-- What an expression asks for, in order: the arguments of a call come before its callee. -/
def askExpr : Typed.Expr → List Request
  | .missing | .int _ | .float _ | .string _ | .bool _ | .self _ | .emptyArray _ => []
  | .var v => askVar v
  | .function f => askFunction f
  | .cls c _ => askClass c
  | .unary _ operand _ => askExpr operand
  | .binary _ left right _ => askExpr left ++ askExpr right
  | .conditional test consequent alternate _ =>
    askExpr test ++ (askExpr consequent ++ askExpr alternate)
  | .call (.cls c _) args _ => askExprs args ++ askClass c
  | .call (.member object _ (some m) _) args _ =>
    askExprs args ++ (askExpr object ++ askMethod (some m))
  | .call callee args _ => askExprs args ++ askExpr callee
  | .index object i _ => askExpr object ++ askExpr i
  | .member object (some f) _ _ => askExpr object ++ askField f
  | .member object none m _ => askExpr object ++ askMethod m
  | .array elements _ => askExprs elements

def askExprs : List Typed.Expr → List Request
  | [] => []
  | e :: rest => askExpr e ++ askExprs rest

end

mutual

/-- What a statement asks for, in order: a class comes before its fields, these before its methods, and
all of them before the bodies of the methods. -/
def askStmt : Typed.Stmt → List Request
  | .missing | .leave | .missingCall | .cls none _ => []
  | .declare v init => askVar v ++ askExpr init
  | .function f params body => askFunction f ++ (params.flatMap askVar ++ askStmts body)
  | .cls (some c) methods =>
    askClass (some c.ref) ++ (c.fields.flatMap askField ++
      (c.methods.flatMap askMethod ++ askMethods methods))
  | .assign target source => askExpr target ++ askExpr source
  | .bump _ target => askExpr target
  | .branch test consequent alternate =>
    askExpr test ++ (askStmts consequent ++ askStmts alternate)
  | .shortBranch test consequent => askExpr test ++ askStmts consequent
  | .loop test body => askExpr test ++ askStmts body
  | .forEach v collection body => askVar v ++ (askExpr collection ++ askStmts body)
  | .ret value => askExpr value
  | .print value => askExpr value
  | .call callee args type => askExpr (.call callee args type)

def askStmts : List Typed.Stmt → List Request
  | [] => []
  | s :: rest => askStmt s ++ askStmts rest

def askMethods : List Typed.MethodBody → List Request
  | [] => []
  | .mk m params body :: rest =>
    askMethod m ++ (params.flatMap askVar ++ (askStmts body ++ askMethods rest))

end

end Requests

section Naming

variable (spell : EntityKey → Text)

/-- A variable under the name that it is spelled by. -/
def namedVar : Option Variable → Expr
  | none => .dangling
  | some v => if v.builtin then builtin v.name else .name (spell (.var v.id))

/-- A function under the name that it is spelled by. -/
def namedFunction : Option Function → Expr
  | none => .dangling
  | some f => if f.builtin then builtin f.name else .name (spell (.function f.id))

/-- A class under the name that it is spelled by. -/
def namedClass : Option ClassRef → Expr
  | none => .dangling
  | some c => .name (spell (.cls c.id))

/-- A field under the name that it is spelled by. -/
def namedField (f : Field) : Expr := .name (spell (.field f.owner f.place))

/-- A method under the name that it is spelled by. -/
def namedMethod : Option PeakLang.Method → Expr
  | none => .dangling
  | some m => .name (spell (.method m.owner m.place))

mutual

/-- The JavaScript of an expression, with each entity spelled in one way. -/
def namedExpr : Typed.Expr → Expr
  | .missing => .undefined
  | .int value => .int value
  | .float value => .float value
  | .string value => .string value
  | .bool value => .bool value
  | .var v => namedVar spell v
  | .function f => namedFunction spell f
  | .cls c _ => namedClass spell c
  | .self _ => .this
  | .unary op operand _ => .unary (if op == .kwNot then "!" else "-") (.paren (namedExpr operand))
  | .binary op left right type =>
    operation op (startsWithSign left) (namedExpr left) (namedExpr right) type
  | .conditional test consequent alternate _ =>
    .paren (.conditional (.paren (namedExpr test)) (.paren (namedExpr consequent))
      (.paren (namedExpr alternate)))
  | .call (.cls c _) args _ => .new (namedClass spell c) (namedExprs args)
  | .call (.member object _ (some m) _) args _ =>
    .call (.member (namedExpr object) (namedMethod spell (some m))) (namedExprs args)
  | .call callee args _ => .call (namedExpr callee) (namedExprs args)
  | .index object i _ => .index (namedExpr object) (namedExpr i)
  | .member object (some f) _ _ => memberValue (namedExpr object) (namedField spell f) true
  | .member object none m _ => memberValue (namedExpr object) (namedMethod spell m) false
  | .array elements _ => .array (namedExprs elements)
  | .emptyArray _ => .array []

def namedExprs : List Typed.Expr → List Expr
  | [] => []
  | e :: rest => namedExpr e :: namedExprs rest

end

mutual

/-- The JavaScript of a statement, with each entity spelled in one way. -/
def namedStmt : Typed.Stmt → List Stmt
  | .missing => []
  | .declare v init => [.declare (namedVar spell v) (namedExpr spell init)]
  | .function f params body =>
    [.function (namedFunction spell f) (params.map (namedVar spell)) (namedStmts body)]
  | .cls none _ => [.eval .dangling]
  | .cls (some c) methods =>
    [classOf c (namedClass spell (some c.ref)) (c.fields.map (namedField spell))
      (namedMethods methods)]
  | .assign target source => [.assign (namedExpr spell target) (namedExpr spell source)]
  | .bump op target => [.bump op (namedExpr spell target)]
  | .branch test consequent alternate =>
    [.branch (.mk (namedExpr spell test) (namedStmts consequent)
      (otherwiseOf alternate.length (namedStmts alternate)))]
  | .shortBranch test consequent =>
    [.branch (.mk (namedExpr spell test) (namedStmts consequent) .nothing)]
  | .loop test body => [.loop (namedExpr spell test) (namedStmts body)]
  | .forEach v collection body =>
    [.forOf (namedVar spell v) (namedExpr spell collection) (namedStmts body)]
  | .leave => [.leave]
  | .ret .missing => [.ret none]
  | .ret value => [.ret (some (namedExpr spell value))]
  | .print value => [.log (namedExpr spell value)]
  | .call callee args type => [.eval (namedExpr spell (.call callee args type))]
  | .missingCall => [.eval .dangling]

def namedStmts : List Typed.Stmt → List Stmt
  | [] => []
  | s :: rest => namedStmt s ++ namedStmts rest

def namedMethods : List Typed.MethodBody → List Method
  | [] => []
  | .mk m params body :: rest =>
    .mk (namedMethod spell m) (params.map (namedVar spell)) (namedStmts body) :: namedMethods rest

end

end Naming

def nameIn (names : Names) (key : EntityKey) : Text := (names.lookup key).getD []

theorem nameIn_eq {names : Names} {key : EntityKey} {n : Text} (h : names.lookup key = some n) :
    nameIn names key = n := by
  rw [nameIn, h, Option.getD_some]

namespace Names

variable {names names' names'' : Names} {spell : EntityKey → Text}

/-- Names with the names of others: every entity that has a name there has it here. -/
def Extends (names names' : Names) : Prop :=
  ∀ key n, names.lookup key = some n → names'.lookup key = some n

theorem Extends.refl (names : Names) : names.Extends names := fun _ _ h => h

theorem Extends.trans (h : names.Extends names') (h' : names'.Extends names'') :
    names.Extends names'' :=
  fun key n hn => h' key n (h key n hn)

/-- The names after requests in a row. -/
def requestAll (names : Names) (requests : List Request) : Names :=
  requests.foldl (fun names r => (names.request r.1 r.2).2) names

theorem requestAll_append (names : Names) (rs rs' : List Request) :
    names.requestAll (rs ++ rs') = (names.requestAll rs).requestAll rs' :=
  List.foldl_append

theorem extends_request (names : Names) (key : EntityKey) (source : Text) :
    names.Extends (names.request key source).2 := by
  intro key' n hn
  unfold request
  split
  · exact hn
  · simp [List.lookup_append, hn]

theorem extends_requestAll (names : Names) (requests : List Request) :
    names.Extends (names.requestAll requests) := by
  induction requests generalizing names with
  | nil => exact .refl names
  | cons r rest ih => exact (names.extends_request r.1 r.2).trans (ih _)

/-- The entity has the name that its request gives from then on. -/
theorem lookup_request (names : Names) (key : EntityKey) (source : Text) :
    (names.request key source).2.lookup key = some (names.request key source).1 := by
  unfold request
  split
  · assumption
  · rename_i hnone
    simp [List.lookup_append, hnone]

/-- Whether each entity that has a name is spelled by that name. -/
def SpelledBy (names : Names) (spell : EntityKey → Text) : Prop :=
  ∀ key n, names.lookup key = some n → spell key = n

theorem SpelledBy.of_extends (h : names'.SpelledBy spell) (hextends : names.Extends names') :
    names.SpelledBy spell :=
  fun key n hn => h key n (hextends key n hn)

end Names

/-- Generation in two steps: it makes its requests, whatever names were given before, and its result is
built from the names that its entities have in the end. -/
structure Follows {α : Type} (m : Gen α) (asked : List Request) (build : (EntityKey → Text) → α) :
    Prop where
  names : ∀ names : Names, (m names).2 = names.requestAll asked
  result : ∀ (names : Names) (spell : EntityKey → Text), (m names).2.SpelledBy spell →
    (m names).1 = build spell

namespace Follows

variable {α β : Type} {m : Gen α} {f : α → Gen β} {asked asked' : List Request}
  {build : (EntityKey → Text) → α}

/-- The result is built from the names that were given in the end. -/
theorem spelled (hm : Follows m asked build) (names : Names) :
    (m names).1 = build (nameIn (m names).2) :=
  hm.result names _ fun _ _ hn => nameIn_eq hn

theorem pure (a : α) : Follows (Pure.pure a) [] fun _ => a :=
  ⟨fun _ => rfl, fun _ _ _ => rfl⟩

theorem bind {next : α → (EntityKey → Text) → β} (hm : Follows m asked build)
    (hf : ∀ a, Follows (f a) asked' (next a)) :
    Follows (m >>= f) (asked ++ asked') fun spell => next (build spell) spell where
  names names := by
    change (f (m names).1 (m names).2).2 = _
    rw [(hf _).names, hm.names, Names.requestAll_append]
  result names spell hspell := by
    change (f (m names).1 (m names).2).1 = _
    have hspell' : (f (m names).1 (m names).2).2.SpelledBy spell := hspell
    -- The names that the first step gave are still there after the second.
    have hbefore : (m names).2.SpelledBy spell := by
      apply hspell'.of_extends
      rw [(hf (m names).1).names]
      exact Names.extends_requestAll _ _
    rw [(hf _).result _ spell hspell', hm.result names spell hbefore]

/-- A last step that asks for nothing. -/
theorem andReturn (hm : Follows m asked build) (g : α → β) :
    Follows (m >>= fun a => Pure.pure (g a)) asked fun spell => g (build spell) := by
  have h := hm.bind fun a => Follows.pure (g a)
  rwa [List.append_nil] at h

theorem mapM {f : α → Gen β} {ask : α → List Request} {next : (EntityKey → Text) → α → β}
    (hf : ∀ a, Follows (f a) (ask a) fun spell => next spell a) (as : List α) :
    Follows (as.mapM f) (as.flatMap ask) fun spell => as.map (next spell) := by
  induction as with
  | nil => exact .pure []
  | cons a rest ih =>
    rw [List.mapM_cons]
    exact .bind (hf a) fun b => .andReturn ih fun bs => b :: bs

theorem nameOf (key : EntityKey) (source : Text) :
    Follows (nameOf key source) [(key, source)] fun spell => .name (spell key) where
  names _ := rfl
  result names spell hspell := by
    have hname := hspell key _ (names.lookup_request key source)
    rw [hname]
    rfl

theorem varName (v : Option Variable) : Follows (varName v) (askVar v) fun spell => namedVar spell v := by
  cases v with
  | none => exact .pure Expr.dangling
  | some v =>
    cases hbuiltin : v.builtin with
    | true =>
      simp only [Js.varName, askVar, namedVar, hbuiltin, if_true]
      exact .pure _
    | false =>
      simp only [Js.varName, askVar, namedVar, hbuiltin, Bool.false_eq_true, if_false]
      exact .nameOf _ _

theorem functionName (f : Option Function) :
    Follows (functionName f) (askFunction f) fun spell => namedFunction spell f := by
  cases f with
  | none => exact .pure Expr.dangling
  | some f =>
    cases hbuiltin : f.builtin with
    | true =>
      simp only [Js.functionName, askFunction, namedFunction, hbuiltin, if_true]
      exact .pure _
    | false =>
      simp only [Js.functionName, askFunction, namedFunction, hbuiltin, Bool.false_eq_true, if_false]
      exact .nameOf _ _

theorem className (c : Option ClassRef) :
    Follows (className c) (askClass c) fun spell => namedClass spell c := by
  cases c with
  | none => exact .pure Expr.dangling
  | some c => exact .nameOf _ _

theorem fieldName (f : Field) : Follows (fieldName f) (askField f) fun spell => namedField spell f :=
  .nameOf _ _

theorem methodName (m : Option PeakLang.Method) :
    Follows (methodName m) (askMethod m) fun spell => namedMethod spell m := by
  cases m with
  | none => exact .pure Expr.dangling
  | some m => exact .nameOf _ _

end Follows

mutual

/-- An expression is generated in two steps. -/
theorem expr_follows (e : Typed.Expr) :
    Follows (expr e) (askExpr e) fun spell => namedExpr spell e := by
  cases e with
  | missing | int | float | string | bool | self | emptyArray => exact .pure _
  | var v => exact .varName v
  | function f => exact .functionName f
  | cls c type => exact .className c
  | unary op operand type => exact .andReturn (expr_follows operand) _
  | binary op left right type =>
    exact .bind (expr_follows left) fun l => .andReturn (expr_follows right) fun r =>
      operation op (startsWithSign left) l r type
  | conditional test consequent alternate type =>
    exact .bind (expr_follows test) fun t => .bind (expr_follows consequent) fun c =>
      .andReturn (expr_follows alternate) fun a =>
        Expr.paren (.conditional (.paren t) (.paren c) (.paren a))
  | call callee args type =>
    have hargs := exprs_follows args
    have hcallee := expr_follows callee
    cases callee with
    | cls c type => exact .bind hargs fun as => .andReturn (.className c) fun c => Expr.new c as
    | member object field method type =>
      cases method with
      | some m =>
        exact .bind hargs fun as => .bind (expr_follows object) fun o =>
          .andReturn (.methodName (some m)) fun n => Expr.call (.member o n) as
      | none => exact .bind hargs fun as => .andReturn hcallee fun f => Expr.call f as
    | _ => exact .bind hargs fun as => .andReturn hcallee fun f => Expr.call f as
  | index object i type =>
    exact .bind (expr_follows object) fun o => .andReturn (expr_follows i) fun j => Expr.index o j
  | member object field method type =>
    cases field with
    | some f =>
      exact .bind (expr_follows object) fun o => .andReturn (.fieldName f) fun n =>
        memberValue o n true
    | none =>
      exact .bind (expr_follows object) fun o => .andReturn (.methodName method) fun n =>
        memberValue o n false
  | array elements type => exact .andReturn (exprs_follows elements) _

theorem exprs_follows (es : List Typed.Expr) :
    Follows (exprs es) (askExprs es) fun spell => namedExprs spell es := by
  cases es with
  | nil => exact .pure []
  | cons e rest =>
    exact .bind (expr_follows e) fun x => .andReturn (exprs_follows rest) fun xs => x :: xs

end

mutual

/-- A statement is generated in two steps. -/
theorem stmt_follows (s : Typed.Stmt) :
    Follows (stmt s) (askStmt s) fun spell => namedStmt spell s := by
  cases s with
  | missing | leave | missingCall => exact .pure _
  | declare v init =>
    exact .bind (.varName v) fun n => .andReturn (expr_follows init) fun x => [Stmt.declare n x]
  | function f params body =>
    exact .bind (.functionName f) fun n => .bind (.mapM .varName params) fun ps =>
      .andReturn (stmts_follows body) fun b => [Stmt.function n ps b]
  | cls c methods =>
    cases c with
    | none => exact .pure _
    | some c =>
      -- The names that the methods get here are not used before their bodies are generated.
      exact .bind (.className (some c.ref)) fun n => .bind (.mapM .fieldName c.fields) fun fs =>
        .bind (.mapM .methodName c.methods) fun _ =>
          .andReturn (methodBodies_follows methods) fun ms => [classOf c n fs ms]
  | assign target source =>
    exact .bind (expr_follows target) fun t => .andReturn (expr_follows source) fun x =>
      [Stmt.assign t x]
  | bump op target => exact .andReturn (expr_follows target) _
  | branch test consequent alternate =>
    exact .bind (expr_follows test) fun t => .bind (stmts_follows consequent) fun c =>
      .andReturn (stmts_follows alternate) fun a =>
        [Stmt.branch (.mk t c (otherwiseOf alternate.length a))]
  | shortBranch test consequent =>
    exact .bind (expr_follows test) fun t => .andReturn (stmts_follows consequent) fun c =>
      [Stmt.branch (.mk t c .nothing)]
  | loop test body =>
    exact .bind (expr_follows test) fun t => .andReturn (stmts_follows body) fun b => [Stmt.loop t b]
  | forEach v collection body =>
    exact .bind (.varName v) fun n => .bind (expr_follows collection) fun x =>
      .andReturn (stmts_follows body) fun b => [Stmt.forOf n x b]
  | ret value =>
    have hvalue := expr_follows value
    cases value with
    | missing => exact .pure _
    | _ => exact .andReturn hvalue _
  | print value => exact .andReturn (expr_follows value) _
  | call callee args type => exact .andReturn (expr_follows (.call callee args type)) _

theorem stmts_follows (ss : List Typed.Stmt) :
    Follows (stmts ss) (askStmts ss) fun spell => namedStmts spell ss := by
  cases ss with
  | nil => exact .pure []
  | cons s rest =>
    exact .bind (stmt_follows s) fun x => .andReturn (stmts_follows rest) fun xs => x ++ xs

theorem methodBodies_follows (ms : List Typed.MethodBody) :
    Follows (methodBodies ms) (askMethods ms) fun spell => namedMethods spell ms := by
  cases ms with
  | nil => exact .pure []
  | cons m rest =>
    obtain ⟨m, params, body⟩ := m
    exact .bind (.methodName m) fun n => .bind (.mapM .varName params) fun ps =>
      .bind (stmts_follows body) fun b => .andReturn (methodBodies_follows rest) fun ms =>
        Method.mk n ps b :: ms

end

section Numbering

/-- The first request for each entity, in order. -/
def firstRequests : List Request → List Request
  | [] => []
  | r :: rest => r :: (firstRequests rest).filter fun s => s.1 != r.1

/-- Names with the numbers of their requests, from one on. -/
def numbered (requests : List Request) : Names :=
  requests.mapIdx fun i r => (r.1, r.2 ++ "_" ++ Text.ofNat (i + 1))

theorem mem_keys_firstRequests {key : EntityKey} (rs : List Request) :
    key ∈ (firstRequests rs).map Prod.fst ↔ key ∈ rs.map Prod.fst := by
  induction rs with
  | nil => rfl
  | cons r rest ih =>
    by_cases heq : key = r.1
    · simp [firstRequests, heq]
    · have hkept : key ∈ ((firstRequests rest).filter fun s => s.1 != r.1).map Prod.fst ↔
          key ∈ (firstRequests rest).map Prod.fst := by
        simp only [List.mem_map, List.mem_filter]
        constructor
        · rintro ⟨s, ⟨hs, -⟩, rfl⟩
          exact ⟨s, hs, rfl⟩
        · rintro ⟨s, hs, rfl⟩
          exact ⟨s, ⟨hs, by simpa using heq⟩, rfl⟩
      rw [firstRequests, List.map_cons, List.map_cons, List.mem_cons, List.mem_cons, hkept, ih]

theorem nodup_keys_firstRequests (rs : List Request) :
    ((firstRequests rs).map Prod.fst).Nodup := by
  induction rs with
  | nil => exact List.nodup_nil
  | cons r rest ih =>
    rw [firstRequests, List.map_cons, List.nodup_cons]
    constructor
    · intro hmem
      obtain ⟨s, hs, heq⟩ := List.mem_map.mp hmem
      have hne := (List.mem_filter.mp hs).2
      rw [heq, bne_self_eq_false] at hne
      cases hne
    · exact ih.sublist (List.filter_sublist.map Prod.fst)

/-- A further request is a first one unless the entity was asked for before. -/
theorem firstRequests_concat (rs : List Request) (r : Request) :
    firstRequests (rs ++ [r]) =
      firstRequests rs ++ if r.1 ∈ rs.map Prod.fst then [] else [r] := by
  induction rs with
  | nil => rfl
  | cons s rest ih =>
    rw [List.cons_append, firstRequests, ih, firstRequests, List.filter_append, List.cons_append]
    by_cases heq : r.1 = s.1
    · have hfirst : r.1 ∈ (s :: rest).map Prod.fst := by simp [heq]
      rw [if_pos hfirst]
      split <;> simp [heq]
    · have hiff : r.1 ∈ (s :: rest).map Prod.fst ↔ r.1 ∈ rest.map Prod.fst := by simp [heq]
      simp only [hiff]
      split <;> simp [heq]

theorem numbered_concat (rs : List Request) (r : Request) :
    numbered (rs ++ [r]) = numbered rs ++ [(r.1, r.2 ++ "_" ++ Text.ofNat (rs.length + 1))] :=
  List.mapIdx_concat

theorem keys_numbered (rs : List Request) : (numbered rs).map Prod.fst = rs.map Prod.fst := by
  induction rs using List.reverseRecOn with
  | nil => rfl
  | append_singleton rs r ih => rw [numbered_concat, List.map_append, List.map_append, ih]; rfl

theorem length_numbered (rs : List Request) : (numbered rs).length = rs.length := List.length_mapIdx

/-- An entity has a name if it is listed with one. -/
theorem Names.lookup_isSome_iff {names : Names} {key : EntityKey} :
    (names.lookup key).isSome = true ↔ key ∈ names.map Prod.fst := by
  rw [List.lookup_isSome_iff, List.mem_map]
  constructor
  · rintro ⟨entry, hentry, heq⟩
    exact ⟨entry, hentry, (beq_iff_eq.mp heq).symm⟩
  · rintro ⟨entry, hentry, heq⟩
    exact ⟨entry, hentry, beq_iff_eq.mpr heq.symm⟩

/-- Requests in a row number the entities in the order of their first requests. -/
theorem requestAll_nil (rs : List Request) :
    Names.requestAll [] rs = numbered (firstRequests rs) := by
  induction rs using List.reverseRecOn with
  | nil => rfl
  | append_singleton rs r ih =>
    have hnext : Names.requestAll [] (rs ++ [r]) =
        ((numbered (firstRequests rs)).request r.1 r.2).2 := by
      rw [Names.requestAll_append, ih]
      rfl
    have hnamed : ((numbered (firstRequests rs)).lookup r.1).isSome = true ↔
        r.1 ∈ rs.map Prod.fst := by
      rw [Names.lookup_isSome_iff, keys_numbered, mem_keys_firstRequests]
    rw [hnext, firstRequests_concat, Names.request]
    cases hlookup : (numbered (firstRequests rs)).lookup r.1 with
    | some n =>
      rw [hlookup] at hnamed
      rw [if_pos (hnamed.mp rfl), List.append_nil]
    | none =>
      have hnew : r.1 ∉ rs.map Prod.fst := by
        intro hasked
        have hsome := hnamed.mpr hasked
        rw [hlookup] at hsome
        cases hsome
      rw [if_neg hnew, numbered_concat, length_numbered]

def ordinal (name : Text) : Nat := Text.natural (name.reverse.takeWhile Text.isDigit).reverse

/-- The number of a request can be read off the name that it gives, whatever the source calls the
entity. -/
theorem ordinal_number (source : Text) (k : Nat) :
    ordinal (source ++ "_" ++ Text.ofNat k) = k := by
  have hdigits : ∀ b ∈ (Text.ofNat k).reverse, Text.isDigit b = true := by
    intro b hb
    exact Text.isDigit_of_mem_ofNat (List.mem_reverse.mp hb)
  have hbar : (Text.ofString "_" ++ source.reverse).takeWhile Text.isDigit = [] := rfl
  have hreverse : (source ++ "_" ++ Text.ofNat k).reverse =
      (Text.ofNat k).reverse ++ (Text.ofString "_" ++ source.reverse) := by
    rw [List.reverse_append, List.reverse_append]
    rfl
  rw [ordinal, hreverse, List.takeWhile_append_of_pos hdigits, hbar, List.append_nil,
    List.reverse_reverse, Text.natural_ofNat]

theorem ordinals_numbered (rs : List Request) :
    (numbered rs).map (fun entry => ordinal entry.2) = List.range' 1 rs.length := by
  induction rs using List.reverseRecOn with
  | nil => rfl
  | append_singleton rs r ih =>
    rw [numbered_concat, List.map_append, ih, List.map_singleton, ordinal_number,
      List.length_append, List.length_singleton, List.range'_concat, Nat.one_mul, Nat.add_comm]

theorem builtins_end : ∀ b ∈ builtins, b.2.getLast?.any Text.isDigit = false := by decide

/-- What is built in has no text that ends with a number. -/
theorem builtin_ne_code (name source : Text) (k : Nat) :
    builtin name ≠ .code (source ++ "_" ++ Text.ofNat k) := by
  intro heq
  have hend := Text.any_getLast?_append_ofNat (source ++ "_") k
  rw [← Expr.code.inj heq] at hend
  cases hlookup : builtins.lookup name with
  | none =>
    rw [hlookup] at hend
    cases hend
  | some text =>
    obtain ⟨l, l', hsplit, -⟩ := List.lookup_eq_some_iff.mp hlookup
    have hmem : (name, text) ∈ builtins := by rw [hsplit]; simp
    rw [hlookup, Option.getD_some, builtins_end _ hmem] at hend
    cases hend

end Numbering

/-- The names that are given in generating a program. -/
def givenNames (program : Typed.Program) : Names := (stmts program []).2

/-- Generating a program gives a name to each entity that it asks for, in the order of the first
requests: the name in the source with the number of the request. An entity is spelled by its name
throughout the program. No two entities have the same name, the numbers are those from one on, and no
name is the text of something built in. -/
theorem generate_numbered (program : Typed.Program) :
    givenNames program = numbered (firstRequests (askStmts program)) ∧
      generate program = namedStmts (nameIn (givenNames program)) program ∧
      ((givenNames program).map Prod.fst).Nodup ∧ ((givenNames program).map Prod.snd).Nodup ∧
      (givenNames program).map (fun entry => ordinal entry.2) =
        List.range' 1 (givenNames program).length ∧
      ∀ entry ∈ givenNames program, ∀ name, builtin name ≠ .code entry.2 := by
  have hfollows := stmts_follows program
  have hnames : givenNames program = numbered (firstRequests (askStmts program)) := by
    rw [← requestAll_nil]
    exact hfollows.names []
  have hordinals : (givenNames program).map (fun entry => ordinal entry.2) =
      List.range' 1 (givenNames program).length := by
    rw [hnames, ordinals_numbered, length_numbered]
  refine ⟨hnames, ?_, ?_, ?_, hordinals, ?_⟩
  · exact hfollows.spelled []
  · rw [hnames, keys_numbered]
    exact nodup_keys_firstRequests _
  · -- Names with different numbers differ.
    apply List.Nodup.of_map ordinal
    rw [List.map_map]
    exact hordinals ▸ List.nodup_range'
  · rw [hnames]
    intro entry hentry name
    obtain ⟨i, hi, rfl⟩ := List.mem_mapIdx.mp hentry
    exact builtin_ne_code name _ _

/-- A variable that hides another one, beside a variable whose name ends with a number already. -/
private def shadowing : Typed.Program :=
  let outer : Variable := ⟨9, "a", .pump, false, false⟩
  let numeral : Variable := ⟨10, "a_1", .pump, false, false⟩
  let inner : Variable := ⟨11, "a", .pump, false, false⟩
  [.declare (some outer) (.int 1),
    .declare (some numeral) (.var (some outer)),
    .shortBranch (.bool true)
      [.declare (some inner) (.var (some numeral)), .print (.var (some inner))],
    .print (.binary .plus (.var (some outer)) (.var (some numeral)) .pump)]

theorem generate_numbered_shadowing :
    givenNames shadowing =
        ([(.var 9, "a_1"), (.var 10, "a_1_2"), (.var 11, "a_3")] : List (EntityKey × Text)) ∧
      generate shadowing = namedStmts (nameIn (givenNames shadowing)) shadowing ∧
      ((givenNames shadowing).map Prod.snd).Nodup :=
  ⟨by decide, (generate_numbered shadowing).2.1, (generate_numbered shadowing).2.2.2.1⟩

end PeakLang.Js
