import PeakLang.Text

namespace PeakLang

/-- A line of a listing. It is a gap if it stands for a node that is not there. -/
structure Line where
  depth : Nat
  text : Text
  gap : Bool
deriving DecidableEq

namespace Line

def entry (depth : Nat) (text : Text) : Line := ⟨depth, text, false⟩

/-- A line for a node that is not there. -/
def missing (depth : Nat) (text : Text) : Line := ⟨depth, text, true⟩

/-- A line as it is written, two spaces for each level. -/
def render (l : Line) : Text := Text.repeated l.depth "  " ++ l.text ++ "\n"

end Line

abbrev Listing := List Line

namespace Listing

def render (lines : Listing) : Text := lines.flatMap Line.render

/-- Whether every node is there. -/
def complete (lines : Listing) : Bool := lines.all fun l => !l.gap

end Listing

end PeakLang
