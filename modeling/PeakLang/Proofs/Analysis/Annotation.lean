import PeakLang.Proofs.Analysis.Reached
import PeakLang.Proofs.Tree.Format
import PeakLang.Proofs.Tree.Parts
import PeakLang.Proofs.Tree.Same

namespace PeakLang

namespace Tree

/-- The types that a function writes in front of its body. -/
def Func.signatureTypes (f : Func) : List TypeExpr := f.params.map Param.type ++ f.result.toList

/-- The types that a statement writes outside its expressions and the statements inside it. -/
def Stmt.signatureTypes : Stmt → List TypeExpr
  | .function f => f.signatureTypes
  | .cls _ fields methods _ => fields.map Field.type ++ methods.flatMap Func.signatureTypes
  | _ => []

/-- A type is written in an expression: as that of an empty array, at any depth. -/
inductive Expr.Writes (t : TypeExpr) : Expr → Prop
  | emptyArray {pos : Pos} : Writes t (.emptyArray t pos)
  | operand {e e' : Expr} (hmem : e' ∈ e.operands) (h : Writes t e') : Writes t e

/-- A type is written in a statement, at any depth. -/
inductive Stmt.Writes (t : TypeExpr) : Stmt → Prop
  | signature {s : Stmt} (hmem : t ∈ s.signatureTypes) : Writes t s
  | expression {s : Stmt} {e : Expr} (hmem : e ∈ s.expressions) (h : e.Writes t) : Writes t s
  | test {e : Expr} {body : List Stmt} {bodyPos pos : Pos} {o : Otherwise} (h : e.Writes t) :
      Writes t (.branch (.mk e body bodyPos o pos))
  | inside {s s' : Stmt} (hmem : s' ∈ s.blocks true) (h : Writes t s') : Writes t s

/-- A type is written in a program. -/
def Program.Writes (program : Program) (t : TypeExpr) : Prop := ∃ s ∈ program, s.Writes t

section Legible

theorem forall_mem_of_all {α : Type} {P : α → Prop} {Ps : List α → Prop}
    (hcons : ∀ a rest, Ps (a :: rest) → P a ∧ Ps rest) {as : List α} (h : Ps as) : ∀ a ∈ as, P a := by
  induction as with
  | nil => exact nofun
  | cons a rest ih => exact List.forall_mem_cons.mpr ⟨(hcons a rest h).1, ih (hcons a rest h).2⟩

theorem Expr.LegibleAll.of_mem {es : List Expr} (h : LegibleAll es) : ∀ e ∈ es, e.Legible :=
  forall_mem_of_all (fun _ _ h => h) h

theorem Stmt.LegibleAll.of_mem {body : List Stmt} (h : Stmt.LegibleAll body) :
    ∀ s ∈ body, s.Legible :=
  forall_mem_of_all (fun _ _ h => ⟨h.1, h.2.2⟩) h

theorem Func.LegibleAll.of_mem {fs : List Func} (h : Func.LegibleAll fs) : ∀ f ∈ fs, f.Legible :=
  forall_mem_of_all (fun _ _ h => h) h

theorem Expr.Legible.operands {e : Expr} (h : e.Legible) : ∀ e' ∈ e.operands, e'.Legible := by
  cases e with
  | array | call => exact LegibleAll.of_mem h
  | member object => exact List.forall_mem_singleton.mpr h.1
  | unary op operand => exact List.forall_mem_singleton.mpr h
  | index left right | binary op left right =>
    exact List.forall_mem_cons.mpr ⟨h.1, List.forall_mem_singleton.mpr h.2⟩
  | conditional => exact LegibleAll.of_mem ⟨h.1, h.2.1, h.2.2, trivial⟩
  | _ => exact nofun

theorem Expr.Writes.legible {t : TypeExpr} {e : Expr} (ht : e.Writes t) (h : e.Legible) :
    t.Legible := by
  induction ht with
  | emptyArray => exact h.1
  | operand hmem _ ih => exact ih (h.operands _ hmem)

theorem Func.Legible.signatureTypes {f : Func} (h : f.Legible) : ∀ t ∈ f.signatureTypes, t.Legible := by
  obtain ⟨name, params, result, body, bodyPos, pos⟩ := f
  refine List.forall_mem_append.mpr ⟨List.forall_mem_map.mpr fun p hp => (h.2.1 p hp).2, ?_⟩
  exact fun t ht => h.2.2.1 t (Option.mem_toList.mp ht)

theorem Func.Legible.name {f : Func} (h : f.Legible) : Lexeme.IsName f.name := by
  obtain ⟨name, params, result, body, bodyPos, pos⟩ := f
  exact h.1

theorem Func.Legible.params {f : Func} (h : f.Legible) : ∀ p ∈ f.params, p.Legible := by
  obtain ⟨name, params, result, body, bodyPos, pos⟩ := f
  exact h.2.1

theorem Func.Legible.body {f : Func} (h : f.Legible) : Stmt.LegibleAll f.body := by
  obtain ⟨name, params, result, body, bodyPos, pos⟩ := f
  exact h.2.2.2

theorem Stmt.Legible.signatureTypes {s : Stmt} (h : s.Legible) : ∀ t ∈ s.signatureTypes, t.Legible := by
  cases s with
  | function f => exact Func.Legible.signatureTypes h
  | cls name fields methods =>
    refine List.forall_mem_append.mpr ⟨List.forall_mem_map.mpr fun f hf => (h.2.1 f hf).2, ?_⟩
    intro t ht
    obtain ⟨f, hf, ht⟩ := List.mem_flatMap.mp ht
    exact (Func.LegibleAll.of_mem h.2.2 f hf).signatureTypes t ht
  | _ => exact nofun

theorem Stmt.Legible.expressions {s : Stmt} (h : s.Legible) : ∀ e ∈ s.expressions, e.Legible := by
  cases s with
  | assign target value => exact List.forall_mem_cons.mpr ⟨h.1, List.forall_mem_singleton.mpr h.2⟩
  | ret value => exact fun e he => h e (Option.mem_toList.mp he)
  | declare name readOnly value => exact List.forall_mem_singleton.mpr h.2
  | bump op target | print target => exact List.forall_mem_singleton.mpr h
  | loop test => exact List.forall_mem_singleton.mpr h.1
  | forEach name namePos collection => exact List.forall_mem_singleton.mpr h.2.1
  | call callee args => exact List.forall_mem_singleton.mpr h
  | _ => exact nofun

theorem Stmt.Legible.blocks {s : Stmt} (h : s.Legible) : ∀ t ∈ s.blocks true, t.Legible := by
  cases s with
  | function f => exact (Func.Legible.body h).of_mem
  | cls name fields methods =>
    intro t ht
    obtain ⟨f, hf, ht⟩ := List.mem_flatMap.mp ht
    exact (Func.LegibleAll.of_mem h.2.2 f hf).body.of_mem t ht
  | branch b =>
    obtain ⟨test, body, bodyPos, o, pos⟩ := b
    refine List.forall_mem_append.mpr ⟨Stmt.LegibleAll.of_mem h.2.1, ?_⟩
    cases o with
    | nothing => exact nofun
    | block body => exact Stmt.LegibleAll.of_mem h.2.2
    | chain next => exact List.forall_mem_singleton.mpr h.2.2
  | loop test body => exact Stmt.LegibleAll.of_mem h.2
  | forEach name namePos collection body => exact Stmt.LegibleAll.of_mem h.2.2
  | _ => exact nofun

theorem Stmt.Writes.legible {t : TypeExpr} {s : Stmt} (ht : s.Writes t) (h : s.Legible) :
    t.Legible := by
  induction ht with
  | signature hmem => exact h.signatureTypes t hmem
  | expression hmem he => exact he.legible (h.expressions _ hmem)
  | test he => exact he.legible h.1
  | inside hmem _ ih => exact ih (h.blocks _ hmem)

end Legible

end Tree

namespace TypeExpr

theorem text_named (name : Text) (pos : Pos) : (named name pos).text = name := List.append_nil name

theorem text_array (base : TypeExpr) (pos : Pos) : (array base pos).text = "[" ++ base.text ++ "]" := by
  simp [text, pieces, Piece.render, Piece.mark, Piece.text]
  rfl

theorem text_optional (base : TypeExpr) (pos : Pos) : (optional base pos).text = base.text ++ "?" := by
  simp [text, pieces, Piece.render, Piece.mark, Piece.text]
  rfl

theorem render_separated (separator : List Piece) (items : List (List Piece)) :
    Piece.render (Piece.separated separator items) =
      Text.join (Piece.render separator) (items.map Piece.render) := by
  induction items with
  | nil => rfl
  | cons item items ih =>
    cases items with
    | nil => simp [Piece.separated, Text.join]
    | cons item' items =>
      rw [Piece.separated, List.intercalate_cons_cons, Piece.render, List.flatMap_append,
        List.flatMap_append, List.map_cons, List.map_cons, Text.join, List.intercalate_cons_cons]
      exact congrArg (fun rest => _ ++ _ ++ rest) ih

theorem text_function (params : List TypeExpr) (result : TypeExpr) (pos : Pos) :
    (function params result pos).text =
      "(" ++ Text.join "," ((piecesOfAll params).map Piece.render) ++ ")->" ++ result.text := by
  have hlist := render_separated [.mark .comma] (piecesOfAll params)
  simp only [text, pieces, Piece.render, List.flatMap_cons, List.flatMap_append] at hlist ⊢
  rw [hlist]
  simp [Piece.mark, Piece.text]
  rfl

end TypeExpr

namespace Tree.Parser

/-- The text of a legible type is read as the type, up to positions, and to its end. -/
theorem type_text {t : TypeExpr} (h : t.Legible) :
    ∃ read last, type (.ofTokens (Token.tokenize t.text)) = (read, ⟨[], last, []⟩) ∧
      last.kind = .eof ∧ read.unplaced = t.unplaced := by
  have htokens : (Token.tokenize t.text).map (Token.moved fun _ => .start) =
      t.words ++ [⟨.eof, [], .start⟩] :=
    Piece.tokenize_render (t.apart h [] rfl)
  have hstate := ofTokens_moved (f := fun _ => .start) (Token.tokenize t.text) fun _ => rfl
  have hmoved := type_regular.moved (f := fun _ => .start) (.ofTokens (Token.tokenize t.text))
    (nofun : State.Within none _)
  have hwords : type ⟨t.words, ⟨.eof, [], .start⟩, []⟩ = (t.unplaced, ⟨[], ⟨.eof, [], .start⟩, []⟩) := by
    simpa using type_words t h [] (by decide)
  rw [← hstate, htokens, ofTokens_concat, hwords, Prod.mk.injEq, TypeExpr.moved_start] at hmoved
  generalize type (.ofTokens (Token.tokenize t.text)) = r at hmoved ⊢
  obtain ⟨read, ahead, last, faults⟩ := r
  obtain ⟨hread, hafter⟩ := hmoved
  rw [State.moved, State.mk.injEq] at hafter
  obtain ⟨hahead, hlast, hfaults⟩ := hafter
  obtain rfl := List.map_eq_nil_iff.mp hahead.symm
  obtain rfl := List.map_eq_nil_iff.mp hfaults.symm
  exact ⟨read, last, rfl, (congrArg Token.kind hlast).symm, hread.symm⟩

end Tree.Parser

namespace Analysis

section Described

variable {scopes : Scopes} {type : Ty}

theorem isFunction_of_resolve {t : TypeExpr} (hs : scopes.HoldsAt Entity.Described)
    (hnot : t.isFunction = false) (h : resolve scopes t = .ok type) : type.isFunction = false := by
  cases t with
  | named name pos =>
    rw [resolve] at h
    split at h
    · cases h
    · rename_i hfind
      cases h
      exact (hs.find? hfind).2
    · cases h
  | array base pos | optional base pos =>
    simp only [resolve, bind_eq_ok_iff, pure_eq_ok_iff] at h
    obtain ⟨b, -, rfl⟩ := h
    rfl
  | function => cases hnot

mutual

theorem describe_of_resolve (hs : scopes.HoldsAt Entity.Described) (t : TypeExpr) (ht : t.Legible)
    {type : Ty} (h : resolve scopes t = .ok type) : type.describe = t.text := by
  cases t with
  | named name pos =>
    rw [resolve] at h
    split at h
    · cases h
    · rename_i hfind
      cases h
      rw [TypeExpr.text_named, (hs.find? hfind).1]
    · cases h
  | array base pos =>
    simp only [resolve, bind_eq_ok_iff, pure_eq_ok_iff] at h
    obtain ⟨b, hb, rfl⟩ := h
    rw [Ty.describe, TypeExpr.text_array, describe_of_resolve hs base ht hb]
  | optional base pos =>
    simp only [resolve, bind_eq_ok_iff, pure_eq_ok_iff] at h
    obtain ⟨b, hb, rfl⟩ := h
    rw [Ty.describe, isFunction_of_resolve hs ht.2 hb, if_neg Bool.false_ne_true,
      TypeExpr.text_optional, describe_of_resolve hs base ht.1 hb]
  | function params result pos =>
    simp only [resolve, bind_eq_ok_iff, pure_eq_ok_iff] at h
    obtain ⟨ps, hps, r, hr, rfl⟩ := h
    rw [Ty.describe, TypeExpr.text_function, describeAll_of_resolve hs params ht.1 hps,
      describe_of_resolve hs result ht.2 hr]

theorem describeAll_of_resolve (hs : scopes.HoldsAt Entity.Described) (ts : List TypeExpr)
    (ht : TypeExpr.LegibleAll ts) {types : List Ty} (h : resolveAll scopes ts = .ok types) :
    Ty.describeAll types = (TypeExpr.piecesOfAll ts).map Piece.render := by
  cases ts with
  | nil =>
    cases h
    rfl
  | cons t rest =>
    simp only [resolveAll, bind_eq_ok_iff, pure_eq_ok_iff] at h
    obtain ⟨type, htype, types, htypes, rfl⟩ := h
    rw [Ty.describeAll, describe_of_resolve hs t ht.1 htype, describeAll_of_resolve hs rest ht.2 htypes]
    rfl

end

/-- The scopes in which types are looked up where analysis gets to a part: as it finds them, and once
the name of the function or the class that it declares is taken. -/
inductive LooksUp : Part → State → Scopes → Prop
  | here {p : Part} {s : State} : LooksUp p s s.scopes
  | function {name : Text} {params : List Tree.Param} {result : Option TypeExpr}
      {body : List Tree.Stmt} {bodyPos pos : Pos} {s : State} :
      LooksUp (.statement (.function (.mk name params result body bodyPos pos))) s
        (s.scopes.bind name (.function ⟨s.nextId, name, none, false⟩))
  | cls {name : Text} {fields : List Tree.Field} {methods : List Tree.Func} {pos : Pos} {s : State} :
      LooksUp (.statement (.cls name fields methods pos)) s
        (s.scopes.bind name (.type name (.cls ⟨s.nextId, name⟩)))

theorem LooksUp.described {p : Part} {s : State} (hs : s.Sound) (h : LooksUp p s scopes) :
    scopes.HoldsAt Entity.Described := by
  cases h with
  | here => exact hs.described
  | function => exact hs.described.bind rfl
  | cls => exact hs.described.bind ⟨rfl, rfl⟩

end Described

/-- A type that is written in an accepted source is described as it is written, wherever analysis
looks it up, be it in this program or in another. Its text is read as the type, to its end. -/
theorem describe_eq_text {source : Text} (h : (Tree.Parser.parse source).faults = []) {t : TypeExpr}
    (ht : (Tree.Parser.parse source).program.Writes t) :
    (∀ program p s scopes type, Reached program p s → LooksUp p s scopes →
      resolve scopes t = .ok type → type.describe = t.text) ∧
    ∃ read last, Tree.Parser.type (.ofTokens (Token.tokenize t.text)) = (read, ⟨[], last, []⟩) ∧
      last.kind = .eof ∧ read.unplaced = t.unplaced := by
  have hlegible : t.Legible := by
    obtain ⟨s, hs, ht⟩ := ht
    have hparse : Tree.Parser.parse source = ⟨(Tree.Parser.parse source).program, []⟩ := by rw [← h]
    exact ht.legible ((Tree.Parser.parse_legible hparse).of_mem s hs)
  refine ⟨fun program p s scopes type hreached hlooks hresolve => ?_, Tree.Parser.type_text hlegible⟩
  exact describe_of_resolve (hlooks.described hreached.ready.sound) t hlegible hresolve

/-- A class with a field whose type mentions the class. -/
private def carafe : Text := "order Cup \x7b refill: (Cup, [pump]?) -> [Cup?] \x7d"

/-- The type of the field. -/
private def refill : TypeExpr :=
  .function [.named "Cup" ⟨1, 22⟩, .optional (.array (.named "pump" ⟨1, 28⟩) ⟨1, 27⟩) ⟨1, 33⟩]
    (.array (.optional (.named "Cup" ⟨1, 40⟩) ⟨1, 43⟩) ⟨1, 39⟩) ⟨1, 21⟩

private theorem parse_carafe :
    Tree.Parser.parse carafe = ⟨[.cls "Cup" [⟨"refill", refill, ⟨1, 13⟩⟩] [] ⟨1, 7⟩], []⟩ := by
  decide +kernel

theorem describe_refill :
    (∃ type, resolve (State.start.scopes.bind "Cup" (.type "Cup" (.cls ⟨9, "Cup"⟩))) refill = .ok type ∧
      type.describe = refill.text) ∧
    ∃ read last, Tree.Parser.type (.ofTokens (Token.tokenize refill.text)) = (read, ⟨[], last, []⟩) ∧
      last.kind = .eof ∧ read.unplaced = refill.unplaced := by
  have hwrites : (Tree.Parser.parse carafe).program.Writes refill := by
    rw [parse_carafe]
    exact ⟨_, List.mem_singleton.mpr rfl, .signature (List.mem_singleton.mpr rfl)⟩
  have hfaults : (Tree.Parser.parse carafe).faults = [] := by rw [parse_carafe]
  have hagree := describe_eq_text hfaults hwrites
  refine ⟨⟨_, rfl, ?_⟩, hagree.2⟩
  exact hagree.1 [.cls "Cup" [] [] .start] _ _ _ _ (.step .start .first) .cls rfl

end Analysis

end PeakLang
