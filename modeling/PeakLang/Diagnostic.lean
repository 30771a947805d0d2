import PeakLang.Pos

namespace PeakLang

/-- How grave a diagnostic is. -/
inductive Severity where
  | error | warning
deriving DecidableEq

namespace Severity

def name : Severity → Text
  | error => "error"
  | warning => "warning"

end Severity

/-- One message at a position. An empty hint is no hint. -/
structure Diagnostic where
  severity : Severity
  message : Text
  pos : Pos
  hint : Text
deriving DecidableEq

namespace Diagnostic

def error (pos : Pos) (message : Text) : Diagnostic := ⟨.error, message, pos, []⟩

def warning (pos : Pos) (message : Text) : Diagnostic := ⟨.warning, message, pos, []⟩

/-- A warning that suggests what to do. -/
def advice (pos : Pos) (message hint : Text) : Diagnostic := ⟨.warning, message, pos, hint⟩

def isError (d : Diagnostic) : Bool := d.severity == .error

/-- A diagnostic on one line, with its position. -/
def line (d : Diagnostic) : Text := d.pos.locator ++ d.message

def hintLine (d : Diagnostic) : Text := if d.hint.isEmpty then [] else "\n  hint: " ++ d.hint

/-- A diagnostic as it is shown for a file, with its hint, if any, on a line of its own. -/
def shown (file : Text) (d : Diagnostic) : Text :=
  file ++ ": " ++ d.pos.locator ++ d.severity.name ++ ": " ++ d.message ++ d.hintLine

end Diagnostic

/-- Diagnostics in the order in which they were recorded. -/
abbrev Diagnostics := List Diagnostic

namespace Diagnostics

/-- The errors, in the order in which they were recorded. -/
def errors (ds : Diagnostics) : Diagnostics := ds.filter Diagnostic.isError

def errorCount (ds : Diagnostics) : Nat := ds.errors.length

def warningCount (ds : Diagnostics) : Nat := ds.length - ds.errorCount

def hasErrors (ds : Diagnostics) : Bool := 0 < ds.errorCount

/-- The diagnostics in the order of the source; those at one position keep the order in which they
were recorded. -/
def sorted (ds : Diagnostics) : Diagnostics :=
  ds.mergeSort fun a b => !b.pos.precedes a.pos

/-- The diagnostics in the order of the source, as they are shown for a file. -/
def shown (ds : Diagnostics) (file : Text) : Text :=
  Text.join "\n" (ds.sorted.map (Diagnostic.shown file))

end Diagnostics

/-- What a failed parse reports: the error nearest the start of the source, and how many errors
there are. -/
structure SyntaxError where
  first : Diagnostic
  count : Nat
deriving DecidableEq

namespace SyntaxError

def message (e : SyntaxError) : Text := e.first.line

end SyntaxError

namespace Diagnostics

/-- The error nearest the start of the source, if there is one. -/
def first? (ds : Diagnostics) : Option SyntaxError :=
  (ds.sorted.find? Diagnostic.isError).map fun d => ⟨d, ds.errorCount⟩

end Diagnostics

end PeakLang
