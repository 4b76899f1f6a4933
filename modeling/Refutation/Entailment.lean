import Refutation.Problem.Basic
import Refutation.Saturation.Basic

/-!
Entailment by refutation. To check a query, its negation is put before the clauses of the problem,
all are renamed apart, and the search looks for the empty clause. The query is entailed if it is
found.
-/

namespace Refutation

namespace Problem

/-- The clauses whose refutation proves a query, renamed apart: its negation and those of the
problem. -/
def refutationClauses (p : Problem) (query : Literal) : List Clause × Supply :=
  Clause.renameAll (.ofLiterals p.symbols [query.negate] :: p.clauses) ⟨0⟩

/-- The search for a refutation before its first pass. -/
def search (p : Problem) (query : Literal) : Search :=
  let (clauses, supply) := p.refutationClauses query
  .start (.ofList clauses) supply

/-- Searches for a refutation of a query for so many passes. -/
def proveFor (p : Problem) (policy : Policy) (clock : Clock) (passes : Nat) (query : Literal) : Status :=
  (p.search query).saturateFor policy p.symbols clock passes

/-- Searches for a refutation of a query to the end. -/
def prove (p : Problem) (clock : Clock) (query : Literal) : Status :=
  (p.search query).saturate p.symbols clock

end Problem

/-- A query and how the search for its refutation ended. -/
structure Answer where
  query : Literal
  outcome : Outcome

def Answer.entailed (answer : Answer) : Bool := answer.outcome.verdict = .refuted

/-- Answers the queries of a problem in turn, with a clock that is started for each; there is no result
if a search passes its limit. -/
@[specialize] def Problem.answersM? {m : Type → Type} [Monad m] (p : Problem) (start : m (Nat → m Bool)) :
    m (Option (List Answer)) :=
  OptionT.run <| p.queries.mapM fun query => OptionT.mk do
    let status ← (p.search query).saturateM p.symbols (← start)
    return status.outcome?.map (Answer.mk query)

def Problem.answers? (p : Problem) (clock : Clock) : Option (List Answer) :=
  Id.run (p.answersM? (pure clock.ask))

end Refutation
