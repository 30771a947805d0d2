import PeakLang.Yaml.Fault
import PeakLang.Yaml.Tag
import PeakLang.Yaml.Token

namespace PeakLang.Yaml

/-- A part of a document. A reference stands for the node that has an anchor; it knows the number of
that anchor and its own place. -/
inductive Node where
  | scalar (value : Text) (style : Style) (tag : Option Tag) (line : Nat)
  | sequence (items : List Node) (tag : Option Tag) (line : Nat)
  | mapping (entries : List (Node × Node)) (tag : Option Tag) (line : Nat)
  | reference (name : Text) (anchor place line : Nat)

namespace Node

/-- A place where nothing is written. -/
def blank (line : Nat) : Node := scalar [] .plain none line

def line : Node → Nat
  | scalar _ _ _ l | sequence _ _ l | mapping _ _ l | reference _ _ _ l => l

/-- The text of a scalar, or the name of a reference; collections have none. -/
def value : Node → Text
  | scalar v _ _ _ | reference v _ _ _ => v
  | sequence .. | mapping .. => []

/-- Whether two keys clash: nodes of one sort with the same text. -/
def clashes : Node → Node → Bool
  | scalar a _ _ _, scalar b _ _ _ | reference a _ _ _, reference b _ _ _ => a == b
  | sequence .., sequence .. | mapping .., mapping .. => true
  | _, _ => false

/-- The tag of a node: the one that is written, or the one that its text calls for. -/
def tag : Node → Tag
  | scalar v .plain t _ => t.getD (Plain.tag true v)
  | scalar _ .quoted t _ => t.getD .str
  | sequence _ t _ => t.getD .seq
  | mapping _ t _ => t.getD .map
  | reference .. => .null

/-- What a scalar is taken for. Any text may be tagged as a string; else the tag that is written must
be the one that the text calls for, but for integers, which may be tagged as numbers with a point. -/
def scalarTag (value : Text) (tag : Tag) : Except Problem Tag :=
  if tag == .str || tag == .binary then .ok tag
  else
    let found := Plain.tag (tag == .timestamp) value
    if found == tag || tag == .float && found == .int then .ok tag
    else .error (.otherTag found.name value tag.name)

/-- Whether a node is the key under which mappings are merged into another. -/
def isMergeKey (n : Node) : Bool :=
  match n with
  | scalar v _ _ _ => v == Plain.mergeKey && n.tag == .merge
  | _ => false

/-- The older words for truth. -/
def yes : List Text := ["y", "Y", "yes", "Yes", "YES", "on", "On", "ON"]

/-- The older words for falsity. -/
def no : List Text := ["n", "N", "no", "No", "NO", "off", "Off", "OFF"]

/-- The truth value that a text stands for if it is taken for a kind. Besides the words of the language,
the older words `yes`, `on`, `no`, `off` and their like are taken, if they are strings. -/
def truth? (tag : Tag) (value : Text) : Option Bool :=
  match tag with
  | .bool => some (Plain.trues.contains value)
  | .str | .binary => if yes.contains value then some true else if no.contains value then some false
    else none
  | _ => none

end Node

/-- A document: its outermost node, and the nodes with anchors by their numbers. -/
structure Document where
  root : Node
  anchored : List (Nat × Node)

namespace Document

def resolve (d : Document) (n : Node) : Node :=
  match n with
  | .reference _ anchor _ line => (d.anchored.lookup anchor).getD (.blank line)
  | n => n

end Document

end PeakLang.Yaml
