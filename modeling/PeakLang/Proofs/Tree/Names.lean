import PeakLang.Proofs.Tree.Legible

namespace PeakLang

namespace TypeExpr

mutual

def names : TypeExpr → List Text
  | named name _ => [name]
  | array base _ | optional base _ => base.names
  | function params result _ => namesOfAll params ++ result.names

def namesOfAll : List TypeExpr → List Text
  | [] => []
  | t :: rest => t.names ++ namesOfAll rest

end

mutual

theorem Legible.isName (t : TypeExpr) (h : t.Legible) : ∀ n ∈ t.names, Lexeme.IsName n := by
  cases t with
  | named name => exact List.forall_mem_singleton.mpr h
  | array base => exact Legible.isName base h
  | optional base => exact Legible.isName base h.1
  | function params result =>
    exact List.forall_mem_append.mpr ⟨LegibleAll.isName params h.1, Legible.isName result h.2⟩

theorem LegibleAll.isName (ts : List TypeExpr) (h : LegibleAll ts) :
    ∀ n ∈ namesOfAll ts, Lexeme.IsName n := by
  cases ts with
  | nil => exact List.forall_mem_nil _
  | cons t rest =>
    exact List.forall_mem_append.mpr ⟨Legible.isName t h.1, LegibleAll.isName rest h.2⟩

end

end TypeExpr

namespace Tree

namespace Expr

mutual

def names : Expr → List Text
  | name n _ => [n]
  | shot _ | int _ _ | float _ _ | string _ _ | bool _ _ => []
  | array elements _ => namesOfAll elements
  | emptyArray type _ => type.names
  | member object n _ => object.names ++ [n]
  | index object i _ => object.names ++ i.names
  | call callee args _ => callee.names ++ namesOfAll args
  | unary _ operand _ => operand.names
  | binary _ left right _ => left.names ++ right.names
  | conditional test consequent alternate _ => test.names ++ (consequent.names ++ alternate.names)

def namesOfAll : List Expr → List Text
  | [] => []
  | e :: rest => e.names ++ namesOfAll rest

end

mutual

theorem Legible.isName (e : Expr) (h : e.Legible) : ∀ n ∈ e.names, Lexeme.IsName n := by
  cases e with
  | name n => exact List.forall_mem_singleton.mpr h
  | shot | int | float | string | bool => exact List.forall_mem_nil _
  | array elements => exact LegibleAll.isName elements h
  | emptyArray type => exact TypeExpr.Legible.isName type h.1
  | member object n =>
    exact List.forall_mem_append.mpr ⟨Legible.isName object h.1, List.forall_mem_singleton.mpr h.2⟩
  | index object i =>
    exact List.forall_mem_append.mpr ⟨Legible.isName object h.1, Legible.isName i h.2⟩
  | call callee args =>
    exact List.forall_mem_append.mpr ⟨Legible.isName callee h.1, LegibleAll.isName args h.2⟩
  | unary op operand => exact Legible.isName operand h
  | binary op left right =>
    exact List.forall_mem_append.mpr ⟨Legible.isName left h.1, Legible.isName right h.2⟩
  | conditional test consequent alternate =>
    have harms := List.forall_mem_append.mpr
      ⟨Legible.isName consequent h.2.1, Legible.isName alternate h.2.2⟩
    exact List.forall_mem_append.mpr ⟨Legible.isName test h.1, harms⟩

theorem LegibleAll.isName (es : List Expr) (h : LegibleAll es) :
    ∀ n ∈ namesOfAll es, Lexeme.IsName n := by
  cases es with
  | nil => exact List.forall_mem_nil _
  | cons e rest =>
    exact List.forall_mem_append.mpr ⟨Legible.isName e h.1, LegibleAll.isName rest h.2⟩

end

end Expr

mutual

def Stmt.names : Stmt → List Text
  | .declare name _ value _ => name :: value.names
  | .function f => f.names
  | .cls name fields methods _ =>
    name :: ((fields.flatMap fun f => f.name :: f.type.names) ++ Func.namesOfAll methods)
  | .assign target value _ => target.names ++ value.names
  | .bump _ target _ => target.names
  | .branch b => b.names
  | .loop test body _ _ => test.names ++ Stmt.namesOfAll body
  | .forEach name _ collection body _ _ => name :: (collection.names ++ Stmt.namesOfAll body)
  | .leave _ => []
  | .ret value _ => value.toList.flatMap Expr.names
  | .print value _ => value.names
  | .call callee args _ _ => callee.names ++ Expr.namesOfAll args

def Func.names : Func → List Text
  | .mk name params result body _ _ =>
    name :: ((params.flatMap fun p => p.name :: p.type.names) ++
      (result.toList.flatMap TypeExpr.names ++ Stmt.namesOfAll body))

def Branch.names : Branch → List Text
  | .mk test body _ otherwise _ => test.names ++ (Stmt.namesOfAll body ++ otherwise.names)

def Otherwise.names : Otherwise → List Text
  | .nothing => []
  | .block body _ => Stmt.namesOfAll body
  | .chain next => next.names

def Stmt.namesOfAll : List Stmt → List Text
  | [] => []
  | s :: rest => s.names ++ Stmt.namesOfAll rest

def Func.namesOfAll : List Func → List Text
  | [] => []
  | f :: rest => f.names ++ Func.namesOfAll rest

end

def Program.names (program : Program) : List Text := Stmt.namesOfAll program

/-- The names in parts that come one after the other, if all of each part's are identifiers. -/
theorem isName_flatMap {α : Type} {parts : List α} {names : α → List Text}
    (h : ∀ x ∈ parts, ∀ n ∈ names x, Lexeme.IsName n) :
    ∀ n ∈ parts.flatMap names, Lexeme.IsName n := by
  intro n hn
  obtain ⟨x, hx, hn⟩ := List.mem_flatMap.mp hn
  exact h x hx n hn

theorem isName_result {result : Option TypeExpr} (h : ∀ t ∈ result, t.Legible) :
    ∀ t ∈ result.toList, ∀ n ∈ t.names, Lexeme.IsName n :=
  fun t ht => TypeExpr.Legible.isName t (h t (Option.mem_toList.mp ht))

mutual

theorem Stmt.Legible.isName (s : Stmt) (h : s.Legible) : ∀ n ∈ s.names, Lexeme.IsName n := by
  cases s with
  | declare name readOnly value =>
    exact List.forall_mem_cons.mpr ⟨h.1, Expr.Legible.isName value h.2⟩
  | function f => exact Func.Legible.isName f h
  | cls name fields methods =>
    have hfield (f : Field) (hf : f ∈ fields) : ∀ n ∈ f.name :: f.type.names, Lexeme.IsName n :=
      List.forall_mem_cons.mpr ⟨(h.2.1 f hf).1, TypeExpr.Legible.isName f.type (h.2.1 f hf).2⟩
    have hfields := isName_flatMap hfield
    have hmethods := Func.LegibleAll.isName methods h.2.2
    exact List.forall_mem_cons.mpr ⟨h.1, List.forall_mem_append.mpr ⟨hfields, hmethods⟩⟩
  | assign target value =>
    exact List.forall_mem_append.mpr ⟨Expr.Legible.isName target h.1, Expr.Legible.isName value h.2⟩
  | bump op target => exact Expr.Legible.isName target h
  | branch b => exact Branch.Legible.isName b h
  | loop test body =>
    exact List.forall_mem_append.mpr ⟨Expr.Legible.isName test h.1, Stmt.LegibleAll.isName body h.2⟩
  | forEach name namePos collection body =>
    have hrest := List.forall_mem_append.mpr
      ⟨Expr.Legible.isName collection h.2.1, Stmt.LegibleAll.isName body h.2.2⟩
    exact List.forall_mem_cons.mpr ⟨h.1, hrest⟩
  | leave => exact List.forall_mem_nil _
  | ret value =>
    refine isName_flatMap fun e he => Expr.Legible.isName e (h e ?_)
    exact Option.mem_toList.mp he
  | print value => exact Expr.Legible.isName value h
  | call callee args =>
    exact List.forall_mem_append.mpr
      ⟨Expr.Legible.isName callee h.1, Expr.LegibleAll.isName args h.2⟩

theorem Func.Legible.isName (f : Func) (h : f.Legible) : ∀ n ∈ f.names, Lexeme.IsName n := by
  cases f with
  | mk name params result body =>
    have hparam (p : Param) (hp : p ∈ params) : ∀ n ∈ p.name :: p.type.names, Lexeme.IsName n :=
      List.forall_mem_cons.mpr ⟨(h.2.1 p hp).1, TypeExpr.Legible.isName p.type (h.2.1 p hp).2⟩
    have hparams := isName_flatMap hparam
    have hresult := isName_flatMap (isName_result h.2.2.1)
    have hbody := Stmt.LegibleAll.isName body h.2.2.2
    exact List.forall_mem_cons.mpr ⟨h.1, List.forall_mem_append.mpr
      ⟨hparams, List.forall_mem_append.mpr ⟨hresult, hbody⟩⟩⟩

theorem Branch.Legible.isName (b : Branch) (h : b.Legible) : ∀ n ∈ b.names, Lexeme.IsName n := by
  cases b with
  | mk test body bodyPos otherwise =>
    have hrest := List.forall_mem_append.mpr
      ⟨Stmt.LegibleAll.isName body h.2.1, Otherwise.Legible.isName otherwise h.2.2⟩
    exact List.forall_mem_append.mpr ⟨Expr.Legible.isName test h.1, hrest⟩

theorem Otherwise.Legible.isName (o : Otherwise) (h : o.Legible) :
    ∀ n ∈ o.names, Lexeme.IsName n := by
  cases o with
  | nothing => exact List.forall_mem_nil _
  | block body => exact Stmt.LegibleAll.isName body h
  | chain next => exact Branch.Legible.isName next h

theorem Stmt.LegibleAll.isName (body : List Stmt) (h : Stmt.LegibleAll body) :
    ∀ n ∈ Stmt.namesOfAll body, Lexeme.IsName n := by
  cases body with
  | nil => exact List.forall_mem_nil _
  | cons s rest =>
    exact List.forall_mem_append.mpr ⟨Stmt.Legible.isName s h.1, Stmt.LegibleAll.isName rest h.2.2⟩

theorem Func.LegibleAll.isName (fs : List Func) (h : Func.LegibleAll fs) :
    ∀ n ∈ Func.namesOfAll fs, Lexeme.IsName n := by
  cases fs with
  | nil => exact List.forall_mem_nil _
  | cons f rest =>
    exact List.forall_mem_append.mpr ⟨Func.Legible.isName f h.1, Func.LegibleAll.isName rest h.2⟩

end

end Tree

end PeakLang
