import PeakLang.Compile
import PeakLang.Text.Base64
import PeakLang.Text.Space
import PeakLang.Yaml

namespace PeakLang

/-- What a project file says. -/
structure Manifest where
  path : Text
  name : Text
  entry : Text
  output : Text
  optimize : Bool
  emit : Stage
  validate : Bool
deriving DecidableEq

namespace Manifest

def fileName : Text := "peak.yml"

/-- What a project file holds, field by field. -/
structure Settings where
  name : Text := []
  entry : Text := []
  output : Text := []
  optimize : Option Bool := none
  emit : Text := []
  validate : Bool := false
deriving DecidableEq

def fields : List Text := ["name", "entry", "output", "optimize", "emit", "validate_ir"]

/-- What a part of a project file should be. -/
inductive Shape where
  | text | truth | settings
deriving DecidableEq

def Shape.name : Shape → Text
  | text => "string"
  | truth => "bool"
  | settings => "config.manifestFile"

/-- Where a project file does not have the shape it should have. -/
inductive Mismatch where
  | repeatedKey (key : Text) (line firstLine : Nat)
  | unknownField (key : Text) (line : Nat)
  | repeatedField (key : Text) (line : Nat)
  | wrongShape (tag : Yaml.Tag) (value : Text) (shape : Shape) (line : Nat)
deriving DecidableEq

namespace Mismatch

/-- A value of more than ten bytes is cut to seven. -/
def shorten (value : Text) : Text := if 10 < value.length then value.take 7 ++ "..." else value

/-- A value as it is shown; collections are not. -/
def shown : Yaml.Tag → Text → Text
  | .seq, _ | .map, _ => []
  | _, value => " \x60" ++ shorten value ++ "\x60"

/-- The message about a mismatch. -/
def text : Mismatch → Text
  | repeatedKey key line firstLine =>
    "line " ++ Text.ofNat line ++ ": mapping key " ++ Quoted.quoted key
      ++ " already defined at line " ++ Text.ofNat firstLine
  | unknownField key line =>
    "line " ++ Text.ofNat line ++ ": field " ++ key ++ " not found in type "
      ++ Shape.settings.name
  | repeatedField key line =>
    "line " ++ Text.ofNat line ++ ": field " ++ key ++ " already set in type " ++ Shape.settings.name
  | wrongShape tag value shape line =>
    "line " ++ Text.ofNat line ++ ": cannot unmarshal " ++ tag.name ++ shown tag value
      ++ " into " ++ shape.name

end Mismatch

/-- Why settings that could be read are refused. -/
inductive Issue where
  | unknownStage (name : Text)
  | noEntry (project : Text)
  | entryNotSource (entry : Text)
  | outputIsDirectory (output : Text)
  | notOptimizing
deriving DecidableEq

def Issue.text : Issue → Text
  | unknownStage name => "emit: " ++ Stage.unknownMessage name
  | noEntry project => "project " ++ Quoted.quoted project ++ " must name an entry file"
  | entryNotSource entry => "entry " ++ Quoted.quoted entry ++ " must be a .peak file"
  | outputIsDirectory output =>
    "output " ++ Quoted.quoted output ++ " must be a file, not a directory"
  | notOptimizing => "emit: optimized requires optimize to be enabled"

/-- Why there is no manifest. -/
inductive Error where
  | empty (path : Text)
  | malformed (path : Text) (fault : Yaml.Fault)
  | mismatched (path : Text) (mismatches : List Mismatch)
  | invalid (issues : List Issue)
deriving DecidableEq

namespace Error

def bullet (issue : Text) : Text := "\n- " ++ issue

/-- The message about a list of issues. -/
def invalidMessage : List Text → Text
  | [] => "manifest: invalid configuration"
  | issues => "manifest validation failed:" ++ issues.flatMap bullet

def message : Error → Text
  | empty path => "manifest: " ++ path ++ " is empty"
  | malformed path fault => "manifest: parse " ++ path ++ ": " ++ fault.message
  | mismatched path mismatches =>
    "manifest: parse " ++ path ++ ": yaml: unmarshal errors:\n  "
      ++ Text.join "\n  " (mismatches.map Mismatch.text)
  | invalid issues => invalidMessage (issues.map Issue.text)

end Error

-- From a document to settings. Mismatches are collected; a problem ends everything.

open Yaml (Document Node Problem)

/-- Steps of taking a document for settings. -/
abbrev Decoding := StateT (List Mismatch) (Except Problem)

def report (found : List Mismatch) : Decoding Unit := modify (· ++ found)

/-- The mismatches of keys that occur twice, for each pair in order. -/
def repeatedKeys : List (Node × Node) → List Mismatch
  | [] => []
  | (key, _) :: rest =>
    (rest.filter fun (later, _) => key.clashes later).map
        (fun (later, _) => .repeatedKey later.value later.line key.line)
      ++ repeatedKeys rest

/-- The mismatches of a node that should have another shape. A mapping with a repeated key is
reported for that alone. -/
def misfit (shape : Shape) (node : Node) : List Mismatch :=
  let wrong : Mismatch := .wrongShape node.tag node.value shape node.line
  match node with
  | .mapping entries _ _ => match repeatedKeys entries with
    | [] => [wrong]
    | repeated => repeated
  | _ => [wrong]

/-- The text that a node gives; `none` if it stands for nothing or does not fit. Numbers and truth values
are taken as they are written. -/
def textOf (d : Document) (node : Node) : Decoding (Option Text) := do
  let node := d.resolve node
  match node with
  | .scalar value _ _ _ =>
    match ← Node.scalarTag value node.tag with
    | .null => return none
    | .binary => return some (← bytesOf value)
    | _ => return some value
  | _ =>
    report (misfit .text node)
    return none
where
  /-- The bytes that a text stands for. -/
  bytesOf (value : Text) : Decoding Text :=
    match Base64.decode? value with
    | some bytes => return bytes
    | none => throw .badBinary

/-- The truth value that a node gives; `none` if it stands for nothing or does not fit. -/
def truthOf (d : Document) (node : Node) : Decoding (Option Bool) := do
  let node := d.resolve node
  let misfits : Decoding (Option Bool) := do
    report (misfit .truth node)
    return none
  match node with
  | .scalar value _ _ _ =>
    match ← Node.scalarTag value node.tag with
    | .null => return none
    | tag =>
      match Node.truth? tag value with
      | some b => return some b
      | none => misfits
  | _ => misfits

/-- The settings with one field read. A value that stands for nothing leaves the field as it is. -/
def readField (d : Document) (s : Settings) (key : Text) (line : Nat) (value : Node) :
    Decoding Settings := do
  if key == Text.ofString "name" then return { s with name := (← textOf d value).getD s.name }
  else if key == Text.ofString "entry" then
    return { s with entry := (← textOf d value).getD s.entry }
  else if key == Text.ofString "output" then
    return { s with output := (← textOf d value).getD s.output }
  else if key == Text.ofString "optimize" then
    return { s with optimize := (← truthOf d value).orElse fun _ => s.optimize }
  else if key == Text.ofString "emit" then return { s with emit := (← textOf d value).getD s.emit }
  else if key == Text.ofString "validate_ir" then
    return { s with validate := (← truthOf d value).getD s.validate }
  else
    report [.unknownField key line]
    return s

/-- The names of entries, as far as they are strings. -/
def stringKeys (d : Document) (entries : List (Node × Node)) : List Text :=
  entries.filterMap fun (key, _) =>
    let key := d.resolve key
    if key.tag == .str || key.tag == .merge then some key.value else none

/-- The settings with entries read, but for those whose names are in `held`, if it is given; then their
names are held, too. An entry whose key stands for nothing is passed over. `done` are the names that
have been read from this mapping. -/
def readEntries (d : Document) (held : Option (List Text)) (done : List Text) (s : Settings) :
    List (Node × Node) → Decoding (Settings × Option (List Text))
  | [] => return (s, held)
  | (key, value) :: rest => do
    if key.isMergeKey then readEntries d held done s rest
    else match ← textOf d key with
      | none => readEntries d held done s rest
      | some name =>
        if held.any fun names => names.contains name then readEntries d held done s rest
        else
          let held := held.map fun names => name :: names
          if done.contains name && fields.contains name then
            report [.repeatedField name key.line]
            readEntries d held done s rest
          else
            let s ← readField d s name key.line value
            readEntries d held (name :: done) s rest

/-- The value of the last entry under the key for merging. -/
def merged? (entries : List (Node × Node)) : Option Node :=
  (entries.reverse.find? fun (key, _) => key.isMergeKey).map Prod.snd

mutual

/-- The settings with a node read: nothing, or a mapping whose entries go into settings. What is merged
into the mapping does not replace what the mapping says itself. `inside` are the places of the
references that led here. -/
def readNode (d : Document) : (fuel : Nat) → (inside : List Nat) → (held : Option (List Text)) →
    Settings → Node → Decoding (Settings × Option (List Text))
  | 0, _, held, s, _ => return (s, held)
  | fuel + 1, inside, held, s, node => do
    match node with
    | .reference name _ place _ =>
      if inside.contains place then throw (.endlessAnchor name)
      readNode d fuel (place :: inside) held s (d.resolve node)
    | .mapping entries _ _ =>
      match repeatedKeys entries with
      | [] =>
        let (s, held) ← readEntries d held [] s entries
        match merged? entries with
        | none => return (s, held)
        | some source =>
          let names := held.getD (stringKeys d entries)
          let (s, names) ← merge d fuel inside names s source
          return (s, held.map fun _ => names)
      | repeated =>
        report repeated
        return (s, held)
    | .scalar value _ _ _ =>
      match ← Node.scalarTag value node.tag with
      | .null => return (s, held)
      | _ =>
        report (misfit .settings node)
        return (s, held)
    | .sequence .. =>
      report (misfit .settings node)
      return (s, held)

/-- The settings with a mapping, or each mapping of a sequence, merged in. -/
def merge (d : Document) : (fuel : Nat) → (inside : List Nat) → (held : List Text) → Settings → Node →
    Decoding (Settings × List Text)
  | 0, _, held, s, _ => return (s, held)
  | fuel + 1, inside, held, s, source => do
    match source with
    | .sequence sources _ _ => mergeAll d fuel inside held s sources
    | _ => mergeAll d fuel inside held s [source]

def mergeAll (d : Document) : (fuel : Nat) → (inside : List Nat) → (held : List Text) → Settings →
    List Node → Decoding (Settings × List Text)
  | 0, _, held, s, _ => return (s, held)
  | _, _, held, s, [] => return (s, held)
  | fuel + 1, inside, held, s, source :: rest => do
    match d.resolve source with
    | .mapping .. =>
      let (s, names) ← readNode d fuel inside (some held) s source
      mergeAll d fuel inside (names.getD held) s rest
    | _ => throw .badMerge

end

/-- The settings that a document holds, or all that is wrong with it. -/
def settingsOf (fuel : Nat) (d : Document) : Except Problem (Except (List Mismatch) Settings) := do
  let ((s, _), mismatches) ← (readNode d fuel [] none {} d.root).run []
  return if mismatches.isEmpty then .ok s else .error mismatches

/-- The manifest of settings, before it is checked. A stage that does not exist is as good as none. -/
def ofSettings (path : Text) (s : Settings) : Manifest where
  path := path
  name := Space.trimmed s.name
  entry := Space.trimmed s.entry
  output := Space.trimmed s.output
  optimize := s.optimize.getD true
  emit := (Stage.ofName? s.emit).getD .js
  validate := s.validate

def stageIssues (s : Settings) : List Issue :=
  if s.emit.isEmpty || (Stage.ofName? s.emit).isSome then [] else [.unknownStage s.emit]

def issues (m : Manifest) : List Issue :=
  (if !m.name.isEmpty && m.entry.isEmpty then [.noEntry m.name] else [])
    ++ (if !m.entry.isEmpty && Path.extension m.entry != Text.ofString ".peak" then
        [.entryNotSource m.entry] else [])
    ++ (if m.output.getLast? == some Path.slash then [.outputIsDirectory m.output] else [])
    ++ (if m.emit == .optimized && !m.optimize then [.notOptimizing] else [])

/-- The manifest of settings, if it has no issues. -/
def checked (path : Text) (s : Settings) : Except Error Manifest :=
  let m := ofSettings path s
  match stageIssues s ++ m.issues with
  | [] => .ok m
  | found => .error (.invalid found)

/-- Reads a manifest. The path is the one it was found at. -/
def decode (path source : Text) : Except Error Manifest := do
  match ← (Yaml.read source).mapError (.malformed path) with
  | none => .error (.empty path)
  | some document =>
    let steps := (source.length + 1) * (source.length + 1)
    let settings ← (settingsOf steps document).mapError fun p => .malformed path (.ofProblem p)
    checked path (← settings.mapError (.mismatched path))

/-- A path in a manifest is seen from the directory of the manifest. -/
def resolve (m : Manifest) (p : Text) : Text :=
  if p.isEmpty || Path.isAbsolute p then p else Path.join (Path.directory m.path) p

/-- The path of the file to compile. -/
def entryPath (m : Manifest) : Text := m.resolve m.entry

/-- The path of the file to write: the output, or the entry with the extension of the stage. -/
def outputPath (m : Manifest) : Text :=
  if m.output.isEmpty then Target.outputPath m.entryPath (.stage m.emit) else m.resolve m.output

def options (m : Manifest) : Options := ⟨.stage m.emit, m.optimize, m.validate⟩

end Manifest

end PeakLang
