import PeakLang.Proofs.Analysis.Balanced
import PeakLang.Proofs.Tree.Parts

namespace PeakLang

/-- The expressions that a statement analyzes where it stands. -/
def Tree.Stmt.expressions : Tree.Stmt → List Tree.Expr
  | .declare _ _ value _ | .print value _ => [value]
  | .assign target value _ => [target, value]
  | .bump _ target _ => [target]
  | .loop test _ _ _ => [test]
  | .forEach _ _ collection _ _ _ => [collection]
  | .ret value _ => value.toList
  | .call callee args callPos _ => [.call callee args callPos]
  | .function _ | .cls _ _ _ _ | .branch _ | .leave _ => []

namespace Analysis

variable {α : Type} {names : List Text} {s s' : State}

namespace Body

def opening : Body → Analyze (List Variable)
  | block _ _ => return []
  | function params sig _ _ => declareParams params sig.params
  | forEach name base _ pos _ => return [← declareVariable name base true pos]

/-- Whether the types of the variables of a body are known. -/
def Known : Body → Prop
  | block _ _ => True
  | function _ sig _ _ => sig.known = true
  | forEach _ base _ _ _ => base.known = true

theorem opening_settles (b : Body) : Settles b.bound b.opening := by
  cases b with
  | block => exact .pure _
  | function params sig => exact .declareParams params sig.params
  | forEach name base _ pos => exact .after (.declareVariable name base true pos) fun _ => .pure _

theorem opening_sound {b : Body} (hs : s.Sound) (hknown : b.Known) {vars : List Variable}
    (h : Yields b.opening s vars s') : s'.Sound := by
  cases b with
  | block =>
    obtain ⟨-, rfl⟩ := yields_pure.mp h
    exact hs
  | function params sig =>
    exact (declareParams_step hs (Signature.known_iff.mp hknown).1 h).1.sound
  | forEach name base _ pos =>
    simp only [opening, yields_bind, yields_pure] at h
    obtain ⟨v, _, hv, -, rfl⟩ := h
    exact (declareVariable_step hs hknown hv).1.sound

end Body

/-- The parts of a program that are analyzed on their own. -/
inductive Part where
  | statements (ts : List Tree.Stmt)
  | statement (t : Tree.Stmt)
  | branch (b : Tree.Branch)
  | alternate (o : Tree.Otherwise)
  | methods (ref : ClassRef) (funcs : List Tree.Func) (declared : List (Option Method))
      (signatures : List Signature)
  | body (b : Body)
  | expression (e : Tree.Expr)

namespace Part

/-- The state after a part was analyzed, also if that ended with a fault. -/
def after : Part → State → State
  | statements ts, s => (Analysis.statements ts s).2
  | statement t, s => (Analysis.statement t s).2
  | branch b, s => (Analysis.branch b s).2
  | alternate o, s => (Analysis.alternate o s).2
  | methods ref funcs declared signatures, s => (methodBodies ref funcs declared signatures s).2
  | body b, s => (b.analysis s).2
  | expression e, s => (reading (fun s => Analysis.expression s e) s).2

/-- The names that a part declares in the scope in which it is analyzed. A statement declares at most
one, a body and an expression none. -/
def declares : Part → List Text
  | statements ts => ts.flatMap Tree.Stmt.declares
  | statement t => t.declares
  | _ => []

/-- Whether all types that a part brings along are known. -/
def Known : Part → Prop
  | methods _ _ _ signatures => ∀ sig ∈ signatures, sig.known = true
  | body b => b.Known
  | _ => True

theorem balanced (p : Part) {s : State} (hs : s.scopes.Linked) (hpositive : 0 < s.scopes.current) :
    s.scopes.Balanced p.declares (p.after s).scopes := by
  cases p with
  | statements ts => exact statements_settles ts s hs hpositive
  | statement t => exact statement_settles t s hs hpositive
  | branch b => exact branch_settles b s hs hpositive
  | alternate o => exact alternate_settles o s hs hpositive
  | methods ref funcs declared signatures =>
    exact methodBodies_settles ref funcs declared signatures s hs hpositive
  | body b => exact b.settles (statements_settles b.statements) s hs hpositive
  | expression e => exact Settles.reading _ s hs hpositive

end Part

/-- While a part is analyzed in a state, analysis gets to another part in another state. -/
inductive Calls : Part → State → Part → State → Prop
  | first {t : Tree.Stmt} {rest : List Tree.Stmt} {s : State} :
      Calls (.statements (t :: rest)) s (.statement t) s
  | rest {t : Tree.Stmt} {rest : List Tree.Stmt} {s s' : State} {r : Typed.Stmt}
      (h : Yields (statement t) s r s') : Calls (.statements (t :: rest)) s (.statements rest) s'
  | expression {t : Tree.Stmt} {e : Tree.Expr} {s : State} (h : e ∈ t.expressions) :
      Calls (.statement t) s (.expression e) s
  | functionBody {name : Text} {params : List Tree.Param} {result : Option TypeExpr}
      {body : List Tree.Stmt} {bodyPos pos : Pos} {s s' : State} {f : Function} {sig : Signature}
      (h : Yields (declareFunction name params result pos) s (f, sig) s') :
      Calls (.statement (.function (.mk name params result body bodyPos pos))) s
        (.body (.function params sig (.ofFunction (some sig)) body)) s'
  | methods {name : Text} {fields : List Tree.Field} {methods : List Tree.Func} {pos : Pos}
      {s s' : State} {c : Class} {signatures : List Signature}
      (h : Yields (declareClass name fields methods pos) s (c, signatures) s') :
      Calls (.statement (.cls name fields methods pos)) s
        (.methods c.ref methods c.methods signatures) s'
  | method {ref : ClassRef} {name : Text} {params : List Tree.Param} {result : Option TypeExpr}
      {body : List Tree.Stmt} {bodyPos pos : Pos} {funcs : List Tree.Func} {m : Option Method}
      {methods : List (Option Method)} {sig : Signature} {signatures : List Signature} {s : State} :
      Calls (.methods ref (.mk name params result body bodyPos pos :: funcs) (m :: methods)
          (sig :: signatures)) s
        (.body (.function params sig (.ofMethod (some ref) (some sig)) body)) s
  | nextMethod {ref : ClassRef} {name : Text} {params : List Tree.Param} {result : Option TypeExpr}
      {body : List Tree.Stmt} {bodyPos pos : Pos} {funcs : List Tree.Func} {m : Option Method}
      {methods : List (Option Method)} {sig : Signature} {signatures : List Signature} {s s' : State}
      {r : List (Option Variable) × List Typed.Stmt}
      (h : Yields (functionBody params sig (.ofMethod (some ref) (some sig)) (statements body)) s r s') :
      Calls (.methods ref (.mk name params result body bodyPos pos :: funcs) (m :: methods)
          (sig :: signatures)) s
        (.methods ref funcs methods signatures) s'
  | branch {b : Tree.Branch} {s : State} : Calls (.statement (.branch b)) s (.branch b) s
  | test {e : Tree.Expr} {body : List Tree.Stmt} {bodyPos pos : Pos} {o : Tree.Otherwise} {s : State} :
      Calls (.branch (.mk e body bodyPos o pos)) s (.expression e) s
  | consequent {e : Tree.Expr} {body : List Tree.Stmt} {bodyPos pos : Pos} {o : Tree.Otherwise}
      {s : State} : Calls (.branch (.mk e body bodyPos o pos)) s (.body (.block .nothing body)) s
  | alternate {e : Tree.Expr} {body : List Tree.Stmt} {bodyPos pos : Pos} {o : Tree.Otherwise}
      {s s' : State} {r : List Typed.Stmt} (h : Yields (within .nothing (statements body)) s r s') :
      Calls (.branch (.mk e body bodyPos o pos)) s (.alternate o) s'
  | otherwise {body : List Tree.Stmt} {bodyPos : Pos} {s : State} :
      Calls (.alternate (.block body bodyPos)) s (.body (.block .nothing body)) s
  | chain {next : Tree.Branch} {s : State} : Calls (.alternate (.chain next)) s (.branch next) s
  | loopBody {e : Tree.Expr} {body : List Tree.Stmt} {bodyPos pos : Pos} {s : State} :
      Calls (.statement (.loop e body bodyPos pos)) s (.body (.block .ofLoop body)) s
  | forBody {name : Text} {namePos : Pos} {e : Tree.Expr} {body : List Tree.Stmt} {bodyPos pos : Pos}
      {s : State} {collection : Typed.Expr} {base : Ty} (h : expression s e = .ok collection)
      (hbase : requireArray collection e.pos = .ok base) :
      Calls (.statement (.forEach name namePos e body bodyPos pos)) s
        (.body (.forEach name base collection pos body)) s
  | inside {b : Body} {s s' : State} {vars : List Variable}
      (h : Yields b.opening (s.enter b.overrides) vars s') :
      Calls (.body b) s (.statements b.statements) s'
  | operand {e e' : Tree.Expr} {s : State} (h : e' ∈ e.operands) :
      Calls (.expression e) s (.expression e') s

/-- The parts and states that the analysis of a program gets to. -/
inductive Reached (program : Tree.Program) : Part → State → Prop
  | start : Reached program (.statements program) .start
  | step {p p' : Part} {s s' : State} (h : Reached program p s) (hcall : Calls p s p' s') :
      Reached program p' s'

/-- What holds wherever a part is analyzed: everything in force is known, functions with their
signatures, and the scopes are in order. -/
structure Ready (p : Part) (s : State) : Prop where
  sound : s.Sound
  linked : s.scopes.Linked
  known : p.Known

theorem Settles.linked {m : Analyze α} (h : Settles names m) {a : α} (hs : s.Sound)
    (hlinked : s.scopes.Linked) (hyields : Yields m s a s') : s'.scopes.Linked := by
  have hbalanced := h s hlinked hs.positive
  rw [show m s = (.ok a, s') from hyields] at hbalanced
  exact hbalanced.linked

theorem Body.analysis_linked (b : Body) {r : b.Result} (hs : s.Sound) (hlinked : s.scopes.Linked)
    (h : Yields b.analysis s r s') : s'.scopes.Linked := by
  have hsettles : Settles [] b.analysis := b.settles (statements_settles b.statements)
  exact hsettles.linked hs hlinked h

theorem functionBody_sound {params : List Tree.Param} {sig : Signature} {o : Scope.Overrides}
    {body : List Tree.Stmt} {r : List (Option Variable) × List Typed.Stmt} (hs : s.Sound)
    (hknown : sig.known = true)
    (h : Yields (functionBody params sig o (statements body)) s r s') : s'.Sound := by
  obtain ⟨vars, t, t', hparams, hbody, -, rfl⟩ := yields_functionBody h
  obtain ⟨hstep, -⟩ :=
    declareParams_step (Step.enter_sound hs o) (Signature.known_iff.mp hknown).1 hparams
  have hinside := (statements_passes body hbody).checked hstep.sound
  exact ((hstep.trans hinside.step).leave hs).sound

/-- One step: what a part that is ready gets to is ready. -/
theorem Ready.calls {p p' : Part} (hp : Ready p s) (hcall : Calls p s p' s') : Ready p' s' := by
  obtain ⟨hs, hlinked, hknown⟩ := hp
  cases hcall with
  | first | expression | branch | test | consequent | otherwise | chain | loopBody | operand =>
    exact ⟨hs, hlinked, trivial⟩
  | @rest t _ _ _ _ h =>
    have hstep := ((statement_passes t h).checked hs).1
    exact ⟨hstep.sound, (statement_settles t).linked hs hlinked h, trivial⟩
  | functionBody h =>
    obtain ⟨hstep, -, hsig, -⟩ := declareFunction_step hs h
    exact ⟨hstep.sound, (Settles.declareFunction _ _ _ _).linked hs hlinked h, hsig⟩
  | methods h =>
    obtain ⟨hstep, -, hsigs, -⟩ := declareClass_step hs h
    exact ⟨hstep.sound, (Settles.declareClass _ _ _ _).linked hs hlinked h, hsigs⟩
  | method => exact ⟨hs, hlinked, hknown _ List.mem_cons_self⟩
  | @nextMethod _ _ _ _ body _ _ _ _ _ _ _ _ _ _ h =>
    refine ⟨functionBody_sound hs (hknown _ List.mem_cons_self) h, ?_, ?_⟩
    · exact Body.analysis_linked (.function _ _ _ body) hs hlinked h
    · exact fun sig hsig => hknown sig (List.mem_cons_of_mem _ hsig)
  | @alternate _ body _ _ _ _ _ _ h =>
    refine ⟨?_, Body.analysis_linked (.block .nothing body) hs hlinked h, trivial⟩
    obtain ⟨t, ht, rfl⟩ := yields_within.mp h
    exact (((statements_passes body ht).checked (Step.enter_sound hs _)).leave hs).1.sound
  | forBody h hbase =>
    have htype := (expression_finds _ h).base_known hs (requireArray_eq_ok_iff.mp hbase)
    exact ⟨hs, hlinked, htype⟩
  | @inside b _ _ _ h =>
    have hinside : (s.enter b.overrides).Sound := Step.enter_sound hs _
    refine ⟨Body.opening_sound hinside hknown h, ?_, trivial⟩
    exact b.opening_settles.linked hinside (hlinked.push b.overrides) h

/-- A run: everything that analysis gets to is ready. -/
theorem Reached.ready {program : Tree.Program} {p : Part} (h : Reached program p s) : Ready p s := by
  induction h with
  | start => exact ⟨State.start_sound, Scopes.Linked.root.push .nothing, trivial⟩
  | step _ hcall ih => exact ih.calls hcall

/-- Wherever analysis gets to a part of a program, the scopes are balanced afterwards, also after a
fault: the same scope is current, in the same loop, function and class, and all that was in force is
unchanged, but for the names that the part declares, which were new in the current scope. The scope of
a body can be left, as it is not the one of the program. Every function in force and every method has
a signature, so that what is called has one. -/
theorem reached_balanced {program : Tree.Program} {p : Part} {s : State} (h : Reached program p s) :
    (p.after s).scopes.current = s.scopes.current ∧
      (p.after s).scopes.inLoop = s.scopes.inLoop ∧
      (p.after s).scopes.function = s.scopes.function ∧
      (p.after s).scopes.cls = s.scopes.cls ∧
      (∃ added,
        (p.after s).scopes.chain =
            { s.scopes.top with locals := added ++ s.scopes.top.locals } :: s.scopes.chain.tail ∧
          (added.map Prod.fst).reverse.Sublist p.declares ∧
          ∀ d ∈ added, s.scopes.findLocal? d.1 = none) ∧
      (∀ b, p = .body b →
        (b.last s).scopes.pop? = some { (b.last s).scopes with current := s.scopes.current }) ∧
      (s.scopes.Visible fun e => ∀ f, e = .function f → f.signature ≠ none) ∧
      ∀ c ∈ s.classes, ∀ m ∈ c.methods, ∃ n, m = some n ∧ n.signature ≠ none := by
  obtain ⟨hs, hlinked, -⟩ := h.ready
  have hbalanced := p.balanced hlinked hs.positive
  have hbare := hbalanced.keeps.grows.bare_top hlinked.current
  have hloop := congrArg Scope.inLoop hbare
  have hfunction := congrArg Scope.function hbare
  have hcls := congrArg Scope.cls hbare
  refine ⟨hbalanced.current, hloop, hfunction, hcls, ?_, ?_, ?_, ?_⟩
  · obtain ⟨added, hlocals, hnames, hnew⟩ := hbalanced.added
    refine ⟨added, ?_, hnames, hnew⟩
    rw [hbalanced.chain_eq hlinked, hlocals]
  · rintro b rfl
    have hinside := b.inside_settles (statements_settles b.statements)
    exact hinside.pop?_within b.overrides hlinked hs.positive
  · refine hs.entities.visible.imp ?_
    rintro _ hknown f rfl hnone
    obtain ⟨sig, hsig, -⟩ := hknown
    cases hnone.symm.trans hsig
  · intro c hc m hm
    obtain ⟨n, sig, rfl, hsig, -⟩ := (hs.classes c hc).2 m hm
    exact ⟨n, rfl, Option.ne_none_iff_exists'.mpr ⟨_, hsig⟩⟩

/-- The body of a loop that declares a name twice. -/
private def overflow : List Tree.Stmt :=
  [.declare "cups" false (.int "1" ⟨3, 16⟩) ⟨3, 5⟩, .declare "cups" false (.int "2" ⟨4, 16⟩) ⟨4, 5⟩]

/-- A function with that loop. -/
private def percolating : Tree.Program :=
  [.function (.mk "brew" [⟨"cups", .named "pump" ⟨1, 17⟩, ⟨1, 12⟩⟩] none
    [.loop (.bool true ⟨2, 9⟩) overflow ⟨2, 14⟩ ⟨2, 3⟩] ⟨1, 23⟩ ⟨1, 1⟩)]

theorem reached_balanced_overflow : ∃ s, Reached percolating (.body (.block .ofLoop overflow)) s ∧
    ((Body.block .ofLoop overflow).analysis s).1.isOk = false ∧
    ((Part.body (.block .ofLoop overflow)).after s).scopes.current = s.scopes.current ∧
    ((Part.body (.block .ofLoop overflow)).after s).scopes.inLoop = false ∧
    ((Body.block .ofLoop overflow).last s).scopes.pop? =
      some { ((Body.block .ofLoop overflow).last s).scopes with current := s.scopes.current } ∧
    s.scopes.Visible fun e => ∀ f, e = .function f → f.signature ≠ none := by
  have hfunction : Reached percolating _ _ := .step (.step .start .first) (.functionBody rfl)
  have hstatements : Reached percolating _ _ := hfunction.step (.inside rfl)
  have hloop := (hstatements.step .first).step .loopBody
  obtain ⟨hcurrent, hinLoop, -, -, -, hpop, hvisible, -⟩ := reached_balanced hloop
  exact ⟨_, hloop, rfl, hcurrent, hinLoop, hpop _ rfl, hvisible⟩

end Analysis

end PeakLang
