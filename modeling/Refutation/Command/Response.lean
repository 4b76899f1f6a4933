import Refutation.Command.Options
import Refutation.Source.Document

/-!
What the program does with its options: which text it writes, what it logs, and its exit status.
Reading and writing files is left to the caller, who hands in what came of it.
-/

namespace Refutation

/-- Why a file cannot be read or written. -/
inductive FileError where
  | notFound
  | isDirectory
  | notText
  | other (cause : String)

def FileError.message : FileError → String
  | .notFound => "No such file or directory (os error 2)"
  | .isDirectory => "Is a directory (os error 21)"
  | .notText => "stream did not contain valid UTF-8"
  | .other cause => cause

/-- How a run ends: its exit status, the messages of its log, and the answers, if it has any. -/
structure Response where
  status : Nat
  log : List Message
  answers : Option String

/-- The exit status of a run that breaks off because a number passes its limit. -/
def overflowStatus : Nat := 101

namespace Options

/-- Whether the input comes from standard input: a lone dash as path, with or without empty parts
behind it. -/
def readsStandardInput (options : Options) : Bool :=
  options.path.startsWith "-" &&
    ((options.path.splitOn "/").filter fun part => part != "" && part != ".") == ["-"]

/-- The messages that are important enough to be logged. -/
def logged (options : Options) (messages : List Message) : List Message :=
  messages.filter fun m => m.level.rank ≤ options.level.rank

/-- The problem in what came of reading the input. -/
def problem (_ : Options) (input : Except FileError String) : Except InputError Problem :=
  match input with
  | .error error => .error (.unreadable error.message)
  | .ok text => Problem.ofText text

/-- The end of a run whose input cannot be read. -/
def refuse (options : Options) (error : InputError) : Response :=
  ⟨1, options.logged [⟨.error, s!"{options.path}: {error.message}"⟩], none⟩

/-- The end of a run that answered all queries, or broke off. -/
def conclude (options : Options) (p : Problem) : Option (List Answer) → Response
  | none => ⟨overflowStatus, [], none⟩
  | some answers =>
      ⟨0, options.logged (p.heading :: answers.flatMap fun answer => answer.messages p.symbols),
        some (answersText (answers.map Answer.entailed))⟩

/-- The whole run, given what came of reading the input. -/
@[specialize] def respondM {m : Type → Type} [Monad m] (options : Options) (start : m (Nat → m Bool))
    (input : Except FileError String) : m Response :=
  match options.problem input with
  | .error error => return options.refuse error
  | .ok p => return options.conclude p (← p.answersM? start)

def respond (options : Options) (clock : Clock) (input : Except FileError String) : Response :=
  Id.run (options.respondM (pure clock.ask) input)

end Options

/-- The end of a run whose answers cannot be written. -/
def Response.unwritten (response : Response) (error : FileError) : Response :=
  { response with
    status := 1
    log := response.log ++ [⟨.error, s!"failed to write answers: {error.message}"⟩] }

/-- The exit status of a run whose arguments are refused. -/
def UsageError.status : UsageError → Nat
  | .badTimeLimit .tooLong => overflowStatus
  | _ => 1

def UsageError.message : UsageError → String
  | .unknownArgument arg => s!"found argument '{arg}' which was not expected"
  | .missingPath => "the path of the input was not given"
  | .missingValue option => s!"--{option} requires a value"
  | .repeated option => s!"--{option} was given more than once"
  | .badTimeLimit error => s!"invalid value for --time-limit: {error.message}"

def versionText : String := "resolute 0.1.0\n"

def helpText : String := versionText ++ "
resolute decides whether queries follow from a knowledge base of
first-order clauses, by refutation resolution.
Answers are written one per line, TRUE or FALSE, in query order.

USAGE:
    resolute [FLAGS] [OPTIONS] <path>

FLAGS:
    -h, --help       Prints help information
        --quiet      only log warnings and errors
    -V, --version    Prints version information

OPTIONS:
        --output <output>            write answers here instead of stdout
        --time-limit <time-limit>    seconds to spend on each query [default: 20]

ARGS:
    <path>    path to input problem, or - for stdin
"

end Refutation
