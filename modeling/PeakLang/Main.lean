import PeakLang.Command
import PeakLang.Duration

namespace PeakLang

/-- Programs with a stopwatch. -/
abbrev Shell := ReaderT (IO.Ref Nat) IO

namespace Shell

/-- The number of a failure. Some steps of the machine give it with a minus sign. -/
def failureNumber (code : UInt32) : UInt32 := if code < 0x80000000 then code else 0 - code

/-- The cause of a failure of the machine. -/
def causeOf (e : IO.Error) : FileCause :=
  match e with
  | .noFileOrDirectory .. => .missing
  | .alreadyExists .. => .present
  | .inappropriateType _ code words =>
    if failureNumber code == 20 then .notDirectory
    else if failureNumber code == 21 then .isDirectory
    else .other words
  | .invalidArgument _ code words =>
    if failureNumber code == 36 then .nameTooLong
    else if failureNumber code == 22 then .invalidName
    else .other words
  | .permissionDenied .. => .other "permission denied"
  | e => .other (toString e)

def pathName (path : Text) : String := path.toString?.getD ""

/-- What a step of the machine gives, or why it fails. -/
def attempt {α : Type} (action : FileAction) (path : Text) (step : IO α) :
    IO (Except FileError α) := do
  try return .ok (← step)
  catch e => return .error ⟨action, path, causeOf e⟩

/-- Reads a file. A directory can be opened, but not read. -/
def readFile (path : Text) : IO (Except FileError Text) := do
  match ← attempt .opening path (IO.FS.readBinFile (pathName path)) with
  | .ok bytes => return .ok bytes.toList
  | .error e =>
    return .error (if e.cause == .isDirectory then { e with action := .reading } else e)

/-- Whether a path leads to a directory: then it can be opened, but not read. -/
def isDirectory? (path : Text) : IO (Option Bool) := do
  match ← attempt .opening path (IO.FS.Handle.mk (pathName path) .read) with
  | .error _ => return none
  | .ok handle => match ← attempt .reading path (handle.read 1) with
    | .ok _ => return some false
    | .error e => return some (e.cause == .isDirectory)

def write (stream : IO.FS.Stream) (t : Text) : IO Unit := do
  stream.write ⟨t.toArray⟩
  stream.flush

instance : Host Shell where
  workDir := do return Text.ofString (← IO.currentDir).toString
  readFile path := readFile path
  writeFile path content :=
    attempt .opening path (IO.FS.writeBinFile (pathName path) ⟨content.toArray⟩)
  isDirectory? path := isDirectory? path
  makeDirectory path := attempt .makingDirectory path (IO.FS.createDir (pathName path))
  print t := do write (← IO.getStdout) t
  report t := do write (← IO.getStderr) t
  lap := do
    let watch ← read
    let now ← IO.monoNanosNow
    let before ← watch.get
    watch.set now
    return Duration.text (now - before)

end Shell

end PeakLang

/-- Runs the compiler on its arguments. -/
def main (args : List String) : IO UInt32 := do
  let watch ← IO.mkRef (← IO.monoNanosNow)
  let run : PeakLang.Shell UInt32 := PeakLang.Command.run (args.map PeakLang.Text.ofString)
  run.run watch
