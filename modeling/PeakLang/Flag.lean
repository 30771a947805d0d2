import PeakLang.Text.Quoted

namespace PeakLang

/-- What is wrong with flags. Asking for help ends reading them too. -/
inductive FlagError where
  | help
  | badForm (argument : Text)
  | unknown (name : Text)
  | noValue (name : Text)
  | badValue (name value reason : Text)
  | badSwitch (name value : Text)
deriving DecidableEq

namespace FlagError

/-- The message about an error; for help there is none. -/
def message? : FlagError → Option Text
  | help => none
  | badForm argument => some ("bad flag syntax: " ++ argument)
  | unknown name => some ("flag provided but not defined: -" ++ name)
  | noValue name => some ("flag needs an argument: -" ++ name)
  | badValue name value reason =>
    some ("invalid value " ++ Quoted.quoted value ++ " for flag -" ++ name ++ ": " ++ reason)
  | badSwitch name value =>
    some ("invalid boolean value " ++ Quoted.quoted value ++ " for -" ++ name ++ ": parse error")

end FlagError

/-- What giving a flag does to the settings: a switch is on or off, others take a text and may refuse
it for a reason. -/
inductive FlagEffect (σ : Type) where
  | switch (put : Bool → σ → σ)
  | value (label : Text) (put : Text → σ → Except Text σ)

/-- An option at the front of the arguments of a command. It starts with one dash or two; its value
follows after an equals sign or, except for a switch, as the next argument. -/
structure Flag (σ : Type) where
  name : Text
  help : Text
  effect : FlagEffect σ

namespace Flag

variable {σ : Type}

/-- Words that turn a switch on. -/
def onWords : List Text := ["1", "t", "T", "TRUE", "true", "True"]

/-- Words that turn a switch off. -/
def offWords : List Text := ["0", "f", "F", "FALSE", "false", "False"]

/-- Whether a word turns a switch on. -/
def switch? (word : Text) : Option Bool :=
  if onWords.contains word then some true
  else if offWords.contains word then some false
  else none

/-- The lines about a flag. A flag of one letter without a value has its help on the same line. -/
def usageLine (f : Flag σ) : Text :=
  let head : Text := "  -" ++ f.name
  let label : Text := match f.effect with
    | .switch _ => []
    | .value label _ => " " ++ label
  let gap : Text := if (head ++ label).length ≤ 4 then "\t" else "\n    \t"
  head ++ label ++ gap ++ f.help ++ "\n"

/-- The summary of a command's flags. -/
def usage (command : Text) (flags : List (Flag σ)) : Text :=
  "Usage of " ++ command ++ ":\n" ++ flags.flatMap usageLine

/-- The flags at the front of an argument list: a name, and the value after an equals sign. -/
structure Given where
  name : Text
  value : Option Text

/-- What an argument is: the end of the flags before or after it, or a flag. -/
inductive Reading where
  | argument
  | divider
  | bad
  | flag (given : Given)

/-- The name and value of what follows the dashes. An equals sign cannot come first. -/
def split (body : Text) : Given :=
  let rest := body.drop 1
  let name := body.take 1 ++ rest.takeWhile fun b => b != 61
  match body.drop name.length with
  | [] => ⟨name, none⟩
  | _ :: value => ⟨name, some value⟩

def classify : Text → Reading
  | 45 :: 45 :: body =>
    match body with
    | [] => .divider
    | b :: _ => if b == 45 || b == 61 then .bad else .flag (split body)
  | 45 :: body =>
    match body with
    | [] => .argument
    | b :: _ => if b == 61 then .bad else .flag (split body)
  | _ => .argument

/-- The settings after a switch was given. -/
def turn (put : Bool → σ → σ) (s : σ) (g : Given) : Except FlagError σ :=
  match g.value with
  | none => .ok (put true s)
  | some word => match switch? word with
    | some b => .ok (put b s)
    | none => .error (.badSwitch g.name word)

/-- The settings after a value was given. -/
def assign (put : Text → σ → Except Text σ) (s : σ) (name value : Text) : Except FlagError σ :=
  (put value s).mapError (.badValue name value)

def asksForHelp (name : Text) : Bool := name == Text.ofString "help" || name == Text.ofString "h"

/-- Reads the flags at the front of arguments into settings, and returns the arguments after them. -/
def parse (flags : List (Flag σ)) (s : σ) : List Text → Except FlagError (σ × List Text)
  | [] => .ok (s, [])
  | argument :: rest =>
    match classify argument with
    | .argument => .ok (s, argument :: rest)
    | .divider => .ok (s, rest)
    | .bad => .error (.badForm argument)
    | .flag g =>
      match flags.find? fun f => f.name == g.name with
      | none => .error (if asksForHelp g.name then .help else .unknown g.name)
      | some f => match f.effect with
        | .switch put => do parse flags (← turn put s g) rest
        | .value _ put => match g.value, rest with
          | some value, rest => do parse flags (← assign put s g.name value) rest
          | none, value :: rest => do parse flags (← assign put s g.name value) rest
          | none, [] => .error (.noValue g.name)

end Flag

end PeakLang
