import PeakLang.Text

namespace PeakLang.Path

def slash : UInt8 := 47

def point : UInt8 := 46

def segments (path : Text) : List Text := path.splitOn slash

/-- Whether a path starts at the root. -/
def isAbsolute (path : Text) : Bool := path.head? == some slash

/-- The segments that are left, last first, when `.` and `..` are worked off. Above the root there is
nothing; above a relative path `..` stays. -/
def resolve (absolute : Bool) : (done : List Text) → List Text → List Text
  | done, [] => done
  | done, s :: rest =>
    if s == [] || s == [point] then resolve absolute done rest
    else if s == [point, point] then
      match done with
      | last :: before =>
        if last == [point, point] then resolve absolute (s :: done) rest
        else resolve absolute before rest
      | [] => resolve absolute (if absolute then [] else [s]) rest
    else resolve absolute (s :: done) rest

/-- The shortest path that means the same. -/
def clean (path : Text) : Text :=
  let absolute := isAbsolute path
  let body := Text.join [slash] (resolve absolute [] (segments path)).reverse
  if absolute then slash :: body
  else if body.isEmpty then [point]
  else body

/-- The path of a path inside another, both cleaned together. An empty part is left out. -/
def join (a b : Text) : Text :=
  match a, b with
  | [], [] => []
  | [], b => clean b
  | a, [] => clean a
  | a, b => clean (a ++ slash :: b)

/-- Everything up to the last slash. -/
def upToSlash (path : Text) : Text := (path.reverse.dropWhile fun b => b != slash).reverse

def directory (path : Text) : Text := clean (upToSlash path)

/-- The last point of a path's last segment and what follows it; nothing if there is no point. -/
def extension (path : Text) : Text :=
  let last := path.drop (upToSlash path).length
  let tail := last.reverse.takeWhile fun b => b != point
  if tail.length < last.length then point :: tail.reverse else []

def withoutExtension (path : Text) : Text := path.take (path.length - (extension path).length)

/-- The path from the root, seen from a working directory. -/
def absolute (workDir path : Text) : Text :=
  if isAbsolute path then clean path else join workDir path

end PeakLang.Path
