import PeakLang.Path
import PeakLang.Text.Quoted

namespace PeakLang

/-- Renderers of typed trees. -/
inductive Renderer where
  | js | outline
deriving DecidableEq

namespace Renderer

def name : Renderer → Text
  | js => "js"
  | outline => "ir"

/-- The extension of the files that a renderer writes. -/
def extension : Renderer → Text
  | js => ".js"
  | outline => ".ir"

def ofName? (n : Text) : Option Renderer := [js, outline].find? fun r => r.name == n

end Renderer

/-- The stages, in order. -/
inductive Stage where
  | parsed | analyzed | optimized | js
deriving DecidableEq

namespace Stage

def all : List Stage := [parsed, analyzed, optimized, js]

def name : Stage → Text
  | parsed => "parsed"
  | analyzed => "analyzed"
  | optimized => "optimized"
  | js => "js"

def ofName? (n : Text) : Option Stage := all.find? fun s => s.name == n

/-- The message about a name that no stage has. -/
def unknownMessage (n : Text) : Text :=
  "unknown stage " ++ Quoted.quoted n ++ " (want parsed, analyzed, optimized or js)"

/-- The extension of the files that hold a stage. -/
def extension : Stage → Text
  | parsed => ".ast"
  | analyzed | optimized => ".ir"
  | js => ".js"

/-- The renderer of a stage after analysis. -/
def renderer? : Stage → Option Renderer
  | parsed => none
  | analyzed | optimized => some .outline
  | js => some .js

end Stage

/-- What is asked for: a stage, or a name that no stage has. -/
inductive Target where
  | stage (s : Stage)
  | unknown (name : Text)
deriving DecidableEq

namespace Target

/-- What a name asks for. -/
def ofName (n : Text) : Target := ((Stage.ofName? n).map stage).getD (unknown n)

def name : Target → Text
  | stage s => s.name
  | unknown n => n

/-- The extension of the files that hold a target; there is none for an unknown one. -/
def extension : Target → Text
  | stage s => s.extension
  | unknown _ => []

/-- The target, or JavaScript if no name is given. -/
def orDefault : Target → Target
  | unknown [] => stage .js
  | t => t

/-- The file that holds the target for a source file, by default. -/
def outputPath (source : Text) (t : Target) : Text := Path.withoutExtension source ++ t.extension

end Target

end PeakLang
