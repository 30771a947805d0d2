import PeakLang.Host

namespace PeakLang

/-- What a path can lead to: a file, or a directory with what its names stand for. -/
inductive FileEntry where
  | file (content : Text)
  | directory (entries : List (Text × FileEntry))

namespace FileEntry

def isDirectory : FileEntry → Bool
  | file _ => false
  | directory _ => true

/-- What a name stands for in an entry. -/
def child? (name : Text) : FileEntry → Option FileEntry
  | file _ => none
  | directory entries => entries.lookup name

/-- What an entry lists. -/
def entries : FileEntry → List (Text × FileEntry)
  | file _ => []
  | directory entries => entries

/-- The entry with another meaning of a name. -/
def put (within : FileEntry) (name : Text) (e : FileEntry) : FileEntry :=
  directory ((name, e) :: within.entries.filter fun (other, _) => other != name)

/-- The entry in which names, one after the other, lead to another; directories are made on the way. -/
def putAt (within : FileEntry) (location : List Text) (e : FileEntry) : FileEntry :=
  match location with
  | [] => e
  | name :: rest => within.put name (((within.child? name).getD (directory [])).putAt rest e)

/-- Where names lead, one after the other. -/
def find? (within : FileEntry) (location : List Text) : Option FileEntry :=
  match location with
  | [] => some within
  | name :: rest => (within.child? name).bind fun e => e.find? rest

/-- The files below an entry with their locations, of which each is at most as long as `depth`. -/
def files : (depth : Nat) → FileEntry → List (List Text × Text)
  | _, file content => [([], content)]
  | 0, directory _ => []
  | depth + 1, directory entries =>
    entries.flatMap fun (name, e) => (files depth e).map fun (l, content) => (name :: l, content)

end FileEntry

/-- A place in a tree: the directories that lead there by their names, innermost first, and what stands
there. -/
structure FilePlace where
  above : List (Text × FileEntry)
  entry : FileEntry

namespace FilePlace

/-- The longest name of a file. -/
def maxName : Nat := 255

def maxPath : Nat := 4095

/-- The names that lead to a place from the root. -/
def location (p : FilePlace) : List Text := p.above.reverse.map Prod.fst

/-- The place that a directory lies in; the root lies in itself. -/
def parent (p : FilePlace) : FilePlace :=
  match p.above with
  | [] => p
  | (_, e) :: above => ⟨above, e⟩

def child (p : FilePlace) (name : Text) : Except FileCause FilePlace :=
  if maxName < name.length then .error .nameTooLong
  else match p.entry.child? name with
    | some e => .ok ⟨(name, p.entry) :: p.above, e⟩
    | none => .error .missing

/-- Where segments lead from a place. Each step needs a directory to start from, also the step to
nowhere after a trailing slash, and something to lead to. -/
def walk (p : FilePlace) : List Text → Except FileCause FilePlace
  | [] => .ok p
  | segment :: rest =>
    if !p.entry.isDirectory then .error .notDirectory
    else if segment == [] || segment == [Path.point] then walk p rest
    else if segment == [Path.point, Path.point] then walk p.parent rest
    else do walk (← p.child segment) rest

/-- Refuses paths that lead nowhere in any tree. -/
def checkPath (path : Text) : Except FileCause Unit :=
  if path.contains 0 then .error .invalidName
  else if path.isEmpty then .error .missing
  else if maxPath < path.length then .error .nameTooLong
  else .ok ()

/-- Whether a segment names a directory by its place alone. -/
def isDots (segment : Text) : Bool :=
  segment == [] || segment == [Path.point] || segment == [Path.point, Path.point]

end FilePlace

structure Memory where
  workDir : List Text
  root : FileEntry
  output : Text
  errors : Text

namespace Memory

def start (m : Memory) (path : Text) : Except FileCause FilePlace :=
  let root : FilePlace := ⟨[], m.root⟩
  if Path.isAbsolute path then .ok root else root.walk m.workDir

/-- Where a path leads. -/
def follow (m : Memory) (path : Text) : Except FileCause FilePlace := do
  FilePlace.checkPath path
  (← m.start path).walk (Path.segments path)

/-- The directory that the last segment of a path lies in, and the segment; trailing slashes do not
count. -/
def followParent (m : Memory) (path : Text) : Except FileCause (FilePlace × Text) := do
  FilePlace.checkPath path
  let segments := Path.segments (path.reverse.dropWhile fun b => b == Path.slash).reverse
  let directory ← (← m.start path).walk (segments.dropLast ++ [[]])
  return (directory, segments.getLast?.getD [])

/-- The memory in which a name in a place stands for something. -/
def put (m : Memory) (p : FilePlace) (name : Text) (e : FileEntry) : Memory :=
  { m with root := m.root.putAt (p.location ++ [name]) e }

def read (m : Memory) (path : Text) : Except FileError Text :=
  match m.follow path with
  | .error cause => .error ⟨.opening, path, cause⟩
  | .ok p => match p.entry with
    | .file content => .ok content
    | .directory _ => .error ⟨.reading, path, .isDirectory⟩

/-- The memory with a file that holds a content. -/
def write (m : Memory) (path content : Text) : Except FileError Memory :=
  let stop (cause : FileCause) : Except FileError Memory := .error ⟨.opening, path, cause⟩
  match m.followParent path with
  | .error cause => stop cause
  | .ok (p, name) =>
    if FilePlace.isDots name || path.getLast? == some Path.slash then stop .isDirectory
    else match p.child name with
      | .error .missing => .ok (m.put p name (.file content))
      | .error cause => stop cause
      | .ok q => if q.entry.isDirectory then stop .isDirectory else .ok (m.put p name (.file content))

def makeDirectory (m : Memory) (path : Text) : Except FileError Memory :=
  let stop (cause : FileCause) : Except FileError Memory := .error ⟨.makingDirectory, path, cause⟩
  match m.followParent path with
  | .error cause => stop cause
  | .ok (p, name) =>
    if FilePlace.isDots name then stop .present
    else match p.child name with
      | .error .missing => .ok (m.put p name (.directory []))
      | .error cause => stop cause
      | .ok _ => stop .present

def isDirectory? (m : Memory) (path : Text) : Option Bool :=
  (m.follow path).toOption.map fun p => p.entry.isDirectory

/-- A working directory with files in it. A path that ends in a slash is a directory. -/
def ofFiles (workDir : List Text) (files : List (Text × Text)) : Memory :=
  let add (root : FileEntry) (path content : Text) : FileEntry :=
    let location := workDir ++ (Path.segments path).filter fun s => !s.isEmpty
    if path.getLast? == some Path.slash then
      if (root.find? location).isSome then root else root.putAt location (.directory [])
    else root.putAt location (.file content)
  let root := FileEntry.putAt (.directory []) workDir (.directory [])
  ⟨workDir, files.foldl (fun root (path, content) => add root path content) root, [], []⟩

/-- The files in the working directory, with their paths from there. No path that a file was written
to is longer than the longest path. -/
def files (m : Memory) : List (Text × Text) :=
  match m.root.find? m.workDir with
  | some here =>
    (here.files (FilePlace.maxPath + m.workDir.length)).map fun (l, content) =>
      (Text.join [Path.slash] l, content)
  | none => []

/-- Replaces the memory, if there is a new one. -/
def change (step : Memory → Except FileError Memory) : StateM Memory (Except FileError Unit) := do
  match step (← get) with
  | .ok m =>
    set m
    return .ok ()
  | .error e => return .error e

instance : Host (StateM Memory) where
  workDir := do return Path.slash :: Text.join [Path.slash] (← get).workDir
  readFile path := do return (← get).read path
  writeFile path content := change fun m => m.write path content
  isDirectory? path := do return (← get).isDirectory? path
  makeDirectory path := change fun m => m.makeDirectory path
  print t := modify fun m => { m with output := m.output ++ t }
  report t := modify fun m => { m with errors := m.errors ++ t }
  lap := return Text.ofString "TIME"

end Memory

end PeakLang
