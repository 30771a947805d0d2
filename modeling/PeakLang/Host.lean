import PeakLang.Path

namespace PeakLang

/-- What was being done to a file. -/
inductive FileAction where
  | opening | reading | makingDirectory
deriving DecidableEq

def FileAction.name : FileAction → Text
  | opening => "open"
  | reading => "read"
  | makingDirectory => "mkdir"

/-- Why it cannot be done. -/
inductive FileCause where
  | missing
  | isDirectory
  | notDirectory
  | present
  | nameTooLong
  | invalidName
  | other (words : Text)
deriving DecidableEq

def FileCause.text : FileCause → Text
  | missing => "no such file or directory"
  | isDirectory => "is a directory"
  | notDirectory => "not a directory"
  | present => "file exists"
  | nameTooLong => "file name too long"
  | invalidName => "invalid argument"
  | other words => words

structure FileError where
  action : FileAction
  path : Text
  cause : FileCause
deriving DecidableEq

def FileError.message (e : FileError) : Text :=
  e.action.name ++ " " ++ e.path ++ ": " ++ e.cause.text

/-- The surroundings of a command. -/
class Host (m : Type → Type) where
  /-- The working directory, from the root. -/
  workDir : m Text
  /-- The content of a file. -/
  readFile (path : Text) : m (Except FileError Text)
  /-- Makes a file hold a content, whether it exists or not. -/
  writeFile (path content : Text) : m (Except FileError Unit)
  /-- Whether a path leads to a directory; `none` if it leads nowhere. -/
  isDirectory? (path : Text) : m (Option Bool)
  /-- Makes one directory. -/
  makeDirectory (path : Text) : m (Except FileError Unit)
  /-- Writes to the output stream. -/
  print (t : Text) : m Unit
  /-- Writes to the error stream. -/
  report (t : Text) : m Unit
  /-- The time since the last such question, in words. -/
  lap : m Text

namespace Host

/-- Everything up to the last slash before the last segment of a path; trailing slashes belong to the
segment. -/
def parentOf (path : Text) : Text :=
  let withoutEnd := path.reverse.dropWhile fun b => b == Path.slash
  (withoutEnd.dropWhile fun b => b != Path.slash).reverse

/-- Makes a directory and those it lies in, as far as they do not exist. -/
def makeDirectories {m : Type → Type} [Monad m] [Host m] (path : Text) :
    m (Except FileError Unit) := do
  match ← isDirectory? path with
  | some true => return .ok ()
  | some false => return .error ⟨.makingDirectory, path, .notDirectory⟩
  | none =>
    let parent := parentOf path
    let above ←
      if _h : parent.length < path.length ∧ !parent.isEmpty then makeDirectories parent
      else pure (.ok ())
    match above with
    | .error e => return .error e
    | .ok () =>
      match ← makeDirectory path with
      | .ok () => return .ok ()
      | .error e => if (← isDirectory? path) == some true then return .ok () else return .error e
termination_by path.length
decreasing_by exact _h.1

end Host

end PeakLang
