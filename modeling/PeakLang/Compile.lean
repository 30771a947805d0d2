import PeakLang.Analysis
import PeakLang.Js.Generate
import PeakLang.Stage
import PeakLang.Tree.Outline
import PeakLang.Tree.Parser
import PeakLang.Typed.Check
import PeakLang.Typed.Outline
import PeakLang.Typed.Simplify

namespace PeakLang

/-- What to compile to, and how. -/
structure Options where
  emit : Target
  optimize : Bool
  validate : Bool
deriving DecidableEq

namespace Options

/-- Simplified JavaScript. -/
def default : Options := ⟨.stage .js, true, false⟩

end Options

/-- Why compiling fails. -/
inductive CompileError where
  | parse (e : SyntaxError)
  | analyze (e : Analysis.SemanticError)
  | invalidTree (issues : List Typed.Issue)
  | unknownStage (name : Text)
deriving DecidableEq

namespace CompileError

/-- The message about the issues of a typed tree. -/
def invalidTreeMessage (issues : List Text) : Text :=
  "invalid IR:\n  " ++ Text.join "\n  " issues

def message : CompileError → Text
  | parse e => "parse: " ++ e.message
  | analyze e => "analyze: " ++ e.message
  | invalidTree issues => invalidTreeMessage (issues.map Typed.Issue.text)
  | unknownStage name => "unknown stage: " ++ name

end CompileError

/-- What compiling gives. -/
structure Compiled where
  stage : Target
  output : Text
deriving DecidableEq

/-- The steps that are reported as they are done. -/
inductive Event where
  | parsed
  | analyzed
  | optimized
  | validated
  | generated (renderer : Renderer)
deriving DecidableEq

namespace Compile

def parse (source : Text) : Except CompileError Tree.Program :=
  (Tree.Parser.parse source).accepted.mapError .parse

def analyze (program : Tree.Program) : Except CompileError Typed.Program :=
  (Analysis.analyze program).mapError .analyze

/-- Whether a target needs a simplified tree. -/
def simplifies (o : Options) : Bool :=
  o.emit == .stage .optimized || (o.emit == .stage .js && o.optimize)

/-- Requires a tree that lacks nothing. -/
def requireValid (program : Typed.Program) : Except CompileError Unit :=
  match program.issues with
  | [] => .ok ()
  | issues => .error (.invalidTree issues)

def rendererFor : Target → Except CompileError Renderer
  | .stage s => match s.renderer? with
    | some r => .ok r
    | none => .error (.unknownStage s.name)
  | .unknown name => .error (.unknownStage name)

def render : Renderer → Typed.Program → Text
  | .js, program => Js.generateText program
  | .outline, program => program.outline.render

/-- Compiles the tree of a source from analysis on, and reports each step. -/
def fromTree {m : Type → Type} [Monad m] (note : Event → m Unit) (tree : Tree.Program)
    (o : Options) : ExceptT CompileError m Text := do
  let mut program ← liftExcept (analyze tree)
  note .analyzed
  if simplifies o then
    program := program.simplify
    note .optimized
  if o.validate then
    liftExcept (requireValid program)
    note .validated
  let renderer ← liftExcept (rendererFor o.emit)
  let output := render renderer program
  note (.generated renderer)
  return output
where
  /-- An outcome as a step. -/
  liftExcept {α : Type} (e : Except CompileError α) : ExceptT CompileError m α :=
    ExceptT.mk (pure e)

/-- Compiles a source, and reports each step. -/
def compileNoting {m : Type → Type} [Monad m] (note : Event → m Unit) (source : Text)
    (o : Options) : ExceptT CompileError m Compiled := do
  let o := { o with emit := o.emit.orDefault }
  let tree ← ExceptT.mk (pure (parse source))
  note .parsed
  if o.emit == .stage .parsed then return ⟨o.emit, tree.outline.render⟩
  else return ⟨o.emit, ← fromTree note tree o⟩

end Compile

def compile (source : Text) (o : Options) : Except CompileError Compiled :=
  Id.run (Compile.compileNoting (fun _ => pure ()) source o).run

/-- Checks a source without rendering it. -/
def check (source : Text) : Except CompileError Unit := do
  let _ ← Compile.analyze (← Compile.parse source)

end PeakLang
