import PeakLang.Compile
import PeakLang.Flag
import PeakLang.Host
import PeakLang.Manifest
import PeakLang.Tree.Format
import PeakLang.Tree.Lint

namespace PeakLang

/-- The commands of the compiler. -/
inductive Command where
  | build | check | lint | fmt
deriving DecidableEq

namespace Command

def name : Command → Text
  | build => "build"
  | check => "check"
  | lint => "lint"
  | fmt => "fmt"

def ofName? (n : Text) : Option Command := [build, check, lint, fmt].find? fun c => c.name == n

/-- The words that ask for the summary of all commands. -/
def helpWords : List Text := ["help", "--help", "-h"]

/-- The summary of all commands. -/
def usage : Text :=
  "peakc - The Peak language compiler

Usage:
  peakc build [options] [file.peak]   Compile to JavaScript (or another stage)
  peakc check <file.peak>             Parse and type-check only
  peakc lint <file.peak>              Run lint checks for style/best practices
  peakc fmt [-w] <file.peak>          Print canonical source (-w rewrites the file)

Build options:
  -o path        Output file (default: input name with the stage's extension)
  -emit stage    parsed, analyzed, optimized or js (default js)
  -no-opt        Skip the optimizer
  -validate      Check the analyzed tree for structural problems
  -verbose       Trace each pipeline stage on stderr

Without a file argument, build reads peak.yml from the working directory.
Command-line options override the manifest.

Examples:
  peakc build hello.peak              Build hello.peak -> hello.js
  peakc build -emit optimized a.peak  Write the optimized tree to a.ir
  peakc check hello.peak              Check for errors without building
  peakc lint hello.peak               Lint for style/best practice issues
  peakc fmt -w hello.peak             Reformat hello.peak in place
"

/-- Why a command fails. -/
inductive Failure where
  | flags (e : FlagError)
  | tooManyFiles (count : Nat)
  | noFile
  | noFileNorManifest
  | noEntry
  | manifestClosed (path : Text) (e : FileError)
  | manifestUnread (path : Text) (e : FileError)
  | manifest (e : Manifest.Error)
  | unread (e : FileError)
  | notCompiled (file : Text) (e : CompileError)
  | noOutputDirectory (file : Text) (e : FileError)
  | noOutput (file : Text) (e : FileError)
  | syntaxErrors (command : Command)
  | unwritten (e : FileError)
deriving DecidableEq

namespace Failure

/-- The message about a failure; asking for help is none. -/
def message? : Failure → Option Text
  | flags e => e.message?
  | tooManyFiles count => some ("expected one input file, got " ++ Text.ofNat count)
  | noFile => some "no input file specified"
  | noFileNorManifest =>
    some ("no input file specified and no " ++ Manifest.fileName ++ " found")
  | noEntry => some (Manifest.fileName ++ " does not name an entry file")
  | manifestClosed path e => some ("manifest: open " ++ path ++ ": " ++ e.message)
  | manifestUnread path e =>
    some ("manifest: parse " ++ path ++ ": yaml: input error: " ++ e.message)
  | manifest e => some e.message
  | unread e => some ("reading file: " ++ e.message)
  | notCompiled file e => some (file ++ ": " ++ e.message)
  | noOutputDirectory file e =>
    some (file ++ ": failed to create output dir: " ++ e.message)
  | noOutput file e => some (file ++ ": failed to write output file: " ++ e.message)
  | syntaxErrors command => some (command.name ++ " aborted: syntax errors")
  | unwritten e => some ("writing file: " ++ e.message)

end Failure

/-- What the flags of `build` say; a flag that is not given says nothing. -/
structure BuildFlags where
  output : Option Text := none
  emit : Option Stage := none
  noOpt : Option Bool := none
  validate : Option Bool := none
  verbose : Bool := false
deriving DecidableEq

def buildFlags : List (Flag BuildFlags) :=
  [⟨"emit", "stage to emit: parsed, analyzed, optimized or js (default js)", .value "value"
      fun n s => match Stage.ofName? n with
        | some stage => .ok { s with emit := some stage }
        | none => .error (Stage.unknownMessage n)⟩,
   ⟨"no-opt", "skip the optimizer", .switch fun b s => { s with noOpt := some b }⟩,
   ⟨"o", "output file", .value "string" fun path s => .ok { s with output := some path }⟩,
   ⟨"validate", "validate the analyzed tree", .switch fun b s => { s with validate := some b }⟩,
   ⟨"verbose", "trace pipeline stages", .switch fun b s => { s with verbose := b }⟩]

/-- The one flag of `fmt`: whether the file is written. -/
def fmtFlags : List (Flag Bool) :=
  [⟨"w", "write result to the source file", .switch fun b _ => b⟩]

/-- What to build: the source, its output if it is given, and the options. -/
structure Job where
  file : Text
  output : Text
  options : Options
deriving DecidableEq

namespace Job

/-- The job without flags for a file that is named. -/
def ofFile (file : Text) : Job := ⟨file, [], .default⟩

/-- The job without flags that a manifest names. -/
def ofManifest (m : Manifest) : Job :=
  ⟨m.entryPath, if m.output.isEmpty then [] else m.outputPath, m.options⟩

/-- The job with flags, which win over a manifest. Without an output, it lies beside the source. -/
def withFlags (j : Job) (f : BuildFlags) : Job :=
  let options : Options :=
    { emit := (f.emit.map Target.stage).getD j.options.emit
      optimize := (f.noOpt.map not).getD j.options.optimize
      validate := f.validate.getD j.options.validate }
  let output := f.output.getD j.output
  { file := j.file
    output := if output.isEmpty then Target.outputPath j.file options.emit else output
    options := options }

end Job

variable {m : Type → Type} [Monad m] [Host m]

/-- Steps that may fail. -/
abbrev Attempt (m : Type → Type) := ExceptT Failure m

def orFail {ε α : Type} (failure : ε → Failure) (outcome : Except ε α) : Attempt m α :=
  ExceptT.mk (pure (outcome.mapError failure))

/-- Prints to the output stream. -/
def say (t : Text) : Attempt m Unit := ExceptT.lift (Host.print t)

/-- Prints to the error stream. -/
def warn (t : Text) : Attempt m Unit := ExceptT.lift (Host.report t)

/-- Reads the flags of a command. What is wrong with them is reported with a summary. -/
def readFlags {σ : Type} (c : Command) (flags : List (Flag σ)) (start : σ) (args : List Text) :
    Attempt m (σ × List Text) := do
  match Flag.parse flags start args with
  | .ok found => return found
  | .error e =>
    if let some message := e.message? then warn (message ++ "\n")
    warn (Flag.usage c.name flags)
    throw (.flags e)

def readSource (file : Text) : Attempt m Text := do
  let outcome ← ExceptT.lift (Host.readFile (m := m) file)
  orFail .unread outcome

/-- The manifest of the working directory. -/
def readManifest : Attempt m Manifest := do
  let dir ← ExceptT.lift (Host.workDir (m := m))
  let path := Path.absolute dir Manifest.fileName
  match ← ExceptT.lift (Host.readFile (m := m) path) with
  | .ok source => orFail .manifest (Manifest.decode path source)
  | .error e =>
    if e.cause == .missing then throw .noFileNorManifest
    else if e.action == .reading then throw (.manifestUnread path e)
    else throw (.manifestClosed path e)

/-- The job that arguments ask for, before flags. -/
def findJob : (args : List Text) → Attempt m Job
  | [] => do
    let manifest ← readManifest
    if manifest.entry.isEmpty then throw .noEntry else return .ofManifest manifest
  | [file] => return .ofFile file
  | args => throw (.tooManyFiles args.length)

def trace (t : Text) : m Unit := Host.report ("peakc: " ++ t ++ "\n")

/-- The line about an event. -/
def traceEvent (e : Event) : m Unit := do
  let time ← Host.lap
  match e with
  | .parsed => trace ("parsed in " ++ time)
  | .analyzed => trace ("analyzed in " ++ time)
  | .optimized => trace ("optimized in " ++ time)
  | .validated => trace "validated IR"
  | .generated r => trace ("generated " ++ r.name ++ " output in " ++ time)

/-- Compiles the source of a job, with a trace if it is asked for. -/
def compileJob (j : Job) (verbose : Bool) (source : Text) : Attempt m Text := do
  if verbose then
    ExceptT.lift (trace (m := m) ("compiling " ++ j.file ++ " (emit " ++ j.options.emit.name
      ++ ", optimize " ++ Text.ofBool j.options.optimize ++ ")"))
    let _ ← ExceptT.lift (Host.lap (m := m))
  let note (e : Event) : m Unit := if verbose then traceEvent e else pure ()
  let outcome ← ExceptT.lift (Compile.compileNoting note source j.options).run
  let compiled ← orFail (.notCompiled j.file) outcome
  return compiled.output

/-- Writes the output of a job, and makes the directory for it. -/
def writeOutput (j : Job) (content : Text) : Attempt m Unit := do
  let dir := Path.directory j.output
  if dir != [Path.point] then
    let made ← ExceptT.lift (Host.makeDirectories (m := m) dir)
    orFail (.noOutputDirectory j.file) made
  let written ← ExceptT.lift (Host.writeFile (m := m) j.output content)
  orFail (.noOutput j.file) written

/-- Compiles a file or the project of the working directory. -/
def runBuild (args : List Text) : Attempt m Unit := do
  let (flags, args) ← readFlags .build buildFlags {} args
  let job := (← findJob args).withFlags flags
  let output ← compileJob job flags.verbose (← readSource job.file)
  writeOutput job output
  say ("Wrote " ++ job.output ++ "\n")

/-- The file that the arguments after the flags name. Further arguments do not count. -/
def fileOf : List Text → Attempt m Text
  | [] => throw .noFile
  | file :: _ => return file

def runCheck (args : List Text) : Attempt m Unit := do
  let ((), args) ← readFlags .check [] () args
  let file ← fileOf args
  orFail (.notCompiled file) (PeakLang.check (← readSource file))
  say "No errors found.\n"

/-- The program of a source. Syntax errors are all reported and end the command. -/
def parseFile (c : Command) (file source : Text) : Attempt m Tree.Program := do
  let result := Tree.Parser.parse source
  if result.diagnostics.hasErrors then
    warn (result.diagnostics.shown file ++ "\n")
    throw (.syntaxErrors c)
  else return result.program

/-- Looks for bad style in a file. -/
def runLint (args : List Text) : Attempt m Unit := do
  let ((), args) ← readFlags .lint [] () args
  let file ← fileOf args
  let program ← parseFile .lint file (← readSource file)
  let remarks := program.lint
  if remarks.isEmpty then say "No lint warnings.\n"
  else
    say (remarks.shown file ++ "\n" ++ Text.ofNat remarks.length ++ " warning(s) found.\n")

/-- Prints a file in its canonical form, or writes it back if that changes it. -/
def runFmt (args : List Text) : Attempt m Unit := do
  let (write, args) ← readFlags .fmt fmtFlags false args
  let file ← fileOf args
  let source ← readSource file
  let formatted := (← parseFile .fmt file source).format
  if !write then say formatted
  else if formatted != source then
    let written ← ExceptT.lift (Host.writeFile (m := m) file formatted)
    orFail .unwritten written
    say ("Formatted " ++ file ++ "\n")

def runCommand (c : Command) (args : List Text) : Attempt m Unit :=
  match c with
  | build => runBuild args
  | check => runCheck args
  | lint => runLint args
  | fmt => runFmt args

/-- Runs what the arguments of the compiler ask for, and returns the exit status: zero for success,
one for every failure. -/
def run : (args : List Text) → m UInt32
  | [] => do
    Host.report usage
    return 1
  | word :: args =>
    match ofName? word with
    | some c => do
      match ← (runCommand c args).run with
      | .ok () => return 0
      | .error failure =>
        if let some message := failure.message? then Host.report ("Error: " ++ message ++ "\n")
        return 1
    | none => do
      if helpWords.contains word then
        Host.print usage
        return 0
      else
        Host.report ("Unknown command: " ++ word ++ "\n\n" ++ usage)
        return 1

end Command

end PeakLang
