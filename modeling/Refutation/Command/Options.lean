import Refutation.Report
import Refutation.TimeLimit

/-!
Command-line options. Arguments are read from left to right. A long option takes its value from
behind `=` or from the next argument, unless that argument begins an option itself; after `--`
everything is a path. Help and version are granted where they are met. What remains is checked at
the end: first that there is a path, then the values and that no option was given twice.
-/

namespace Refutation

structure Options where
  path : String
  output : Option String
  timeLimit : TimeLimit
  quiet : Bool

/-- The least important level that is still logged. -/
def Options.level (options : Options) : Level := if options.quiet then .warn else .info

/-- What the command line asks for. -/
inductive Request where
  | run (options : Options)
  | help
  | version

inductive UsageError where
  | unknownArgument (arg : String)
  | missingPath
  | missingValue (option : String)
  | repeated (option : String)
  | badTimeLimit (error : TimeLimit.Error)

/-- The options that take a value. -/
inductive ValueOption where
  | output
  | timeLimit
deriving DecidableEq

def ValueOption.name : ValueOption → String
  | .output => "output"
  | .timeLimit => "time-limit"

def ValueOption.ofName? (name : String) : Option ValueOption :=
  [.output, .timeLimit].find? fun option => option.name = name

/-- The arguments read so far: how often each option was met, and the values given for it. -/
structure Usage where
  path : Option String
  outputUses : Nat
  outputs : List String
  limitUses : Nat
  limits : List String
  quietUses : Nat
  /-- The option that still lacks its value. -/
  awaiting : Option ValueOption
  /-- Whether only paths can follow. -/
  pathsOnly : Bool

namespace Usage

def empty : Usage := ⟨none, 0, [], 0, [], 0, none, false⟩

def meet (u : Usage) : ValueOption → Usage
  | .output => { u with outputUses := u.outputUses + 1 }
  | .timeLimit => { u with limitUses := u.limitUses + 1 }

def give (u : Usage) (value : String) : ValueOption → Usage
  | .output => { u with outputs := u.outputs ++ [value], awaiting := none }
  | .timeLimit => { u with limits := u.limits ++ [value], awaiting := none }

/-- Why reading the arguments stops early. -/
inductive Stop where
  | help
  | version
  | unknown

def addPath (u : Usage) (arg : String) : Except Stop Usage :=
  match u.path with
  | none => .ok { u with path := some arg }
  | some _ => .error .unknown

/-- An option by its long name, without its dashes; the value is what stood behind `=`. -/
def addLong (u : Usage) (name : String) (value : Option String) : Except Stop Usage :=
  if name = "help" then .error .help
  else if name = "version" then .error .version
  else if name = "quiet" then .ok { u with quietUses := u.quietUses + 1, awaiting := none }
  else
    match ValueOption.ofName? name, value with
    | none, _ => .error .unknown
    | some option, none => .ok { u.meet option with awaiting := some option }
    | some option, some value => .ok ((u.meet option).give value option)

/-- Options by their letters: the first one decides, since there are only help and version. -/
def addShort : List Char → Except Stop Usage
  | 'h' :: _ => .error .help
  | 'V' :: _ => .error .version
  | _ => .error .unknown

/-- Splits a long option into its name and the value behind `=`; dashes before the name and further
equals signs before the value do not count. -/
def splitLong (arg : List Char) : String × Option String :=
  let body := arg.dropWhile (· = '-')
  let name := String.ofList (body.takeWhile (· ≠ '='))
  match body.dropWhile (· ≠ '=') with
  | [] => (name, none)
  | value => (name, some (String.ofList (value.dropWhile (· = '='))))

def add (u : Usage) (arg : String) : Except Stop Usage :=
  if u.pathsOnly then u.addPath arg
  else
    match arg.toList with
    | ['-', '-'] => .ok { u with pathsOnly := true }
    | '-' :: '-' :: rest =>
        let (name, value) := splitLong rest
        u.addLong name value
    | '-' :: first :: rest => addShort (first :: rest)
    | _ =>
        match u.awaiting with
        | some option => .ok (u.give arg option)
        | none => u.addPath arg

/-- Reads the last value of a time limit, and checks all. -/
def readLimits : List String → TimeLimit → Except TimeLimit.Error TimeLimit
  | [], limit => .ok limit
  | text :: rest, _ =>
      match TimeLimit.read text with
      | .ok limit => readLimits rest limit
      | .error error => .error error

/-- The limit when none is given. -/
def defaultLimit : TimeLimit := .ofSeconds 20

def finish (u : Usage) : Except UsageError Options :=
  match u.path with
  | none => .error .missingPath
  | some path =>
      if 0 < u.outputUses ∧ u.outputs = [] then .error (.missingValue ValueOption.output.name)
      else
        match readLimits u.limits defaultLimit with
        | .error error => .error (.badTimeLimit error)
        | .ok timeLimit =>
            if 1 < u.outputUses then .error (.repeated ValueOption.output.name)
            else if 1 < u.limitUses then .error (.repeated ValueOption.timeLimit.name)
            else if 1 < u.quietUses then .error (.repeated "quiet")
            else .ok ⟨path, u.outputs.head?, timeLimit, 0 < u.quietUses⟩

end Usage

/-- Reads the arguments that follow the name of the program. -/
def Request.ofArgs (args : List String) : Except UsageError Request :=
  go .empty args
where
  go (u : Usage) : List String → Except UsageError Request
    | [] => u.finish.map .run
    | arg :: rest =>
        match u.add arg with
        | .ok u => go u rest
        | .error .help => .ok .help
        | .error .version => .ok .version
        | .error .unknown => .error (.unknownArgument arg)

end Refutation
