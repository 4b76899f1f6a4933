import Refutation.Entailment

/-!
What a run writes: a log of messages, each of some level, and one line per query with its answer.
-/

namespace Refutation

/-- How much a message matters. -/
inductive Level where
  | error
  | warn
  | info
  | debug
deriving DecidableEq

namespace Level

def name : Level → String
  | .error => "ERROR"
  | .warn => "WARN"
  | .info => "INFO"
  | .debug => "DEBUG"

/-- Zero for what matters most. -/
def rank : Level → Nat
  | .error => 0
  | .warn => 1
  | .info => 2
  | .debug => 3

end Level

structure Message where
  level : Level
  text : String

/-- The line of a message in the log. -/
def Message.line (m : Message) : String := s!"% [{m.level.name}] {m.text}"

def Verdict.text : Verdict → String
  | .refuted => "refuted"
  | .saturated => "saturated"
  | .timedOut => "timed out"

/-- The message before the first query. -/
def Problem.heading (p : Problem) : Message :=
  ⟨.debug, s!"{p.clauses.length} clauses, {p.queries.length} queries"⟩

/-- The messages of a query: passes and counters of its search, and its verdict. -/
def Answer.messages (answer : Answer) (symbols : Symbols) : List Message :=
  let final := answer.outcome.final
  answer.outcome.lines.map (Message.mk .debug) ++
    [⟨.debug, s!"fresh variables: {final.supply.issued}"⟩,
     ⟨.info, s!"{answer.query.text symbols}: {answer.outcome.verdict.text}"⟩]

/-- One line per answer. -/
def answersText (answers : List Bool) : String :=
  String.join (answers.map fun entailed => if entailed then "TRUE\n" else "FALSE\n")

end Refutation
