import Refutation.Clause.Basic

/-!
Problems: the clauses of a knowledge base, the queries to check against it, and the symbol table of
both. Queries are single literals.
-/

namespace Refutation

structure Problem where
  symbols : Symbols
  clauses : List Clause
  queries : List Literal

/-- The text of a problem: the number of queries and one query per line, then the number of clauses
and one clause per line. -/
def Problem.text (p : Problem) : String :=
  let queries := p.queries.map fun l => l.text p.symbols ++ "\n"
  let clauses := p.clauses.map fun c => c.text p.symbols ++ "\n"
  s!"{p.queries.length}\n" ++ String.join queries ++ s!"{p.clauses.length}\n" ++ String.join clauses

end Refutation
