import Refutation.Problem.Basic

/-!
Building a problem piece by piece. Terms and literals are named; names of constants, functions and
predicates belong to the whole problem, names of variables to the clause or query that is being
built.
-/

namespace Refutation

structure Builder where
  symbols : Symbols
  clauses : List Clause
  queries : List Literal
  /-- The literals of the clause or query that is being built. -/
  pending : List Literal
  /-- The names of its variables, each with its number. -/
  scope : Symbols

namespace Builder

def empty : Builder := ⟨.empty, [], [], [], .empty⟩

def finish (b : Builder) : Problem := ⟨b.symbols, b.clauses, b.queries⟩

def const (b : Builder) (name : String) : Term × Builder :=
  let (id, symbols) := b.symbols.intern name
  (.const id, { b with symbols })

/-- The variable of a name, the next one if the name is new in the clause or query. -/
def var (b : Builder) (name : String) : Term × Builder :=
  let (id, scope) := b.scope.intern name
  (.var id, { b with scope })

def app (b : Builder) (name : String) (args : List Term) : Term × Builder :=
  let (id, symbols) := b.symbols.intern name
  (.app id args, { b with symbols })

def literal (b : Builder) (positive : Bool) (name : String) (args : List Term) : Builder :=
  let (id, symbols) := b.symbols.intern name
  { b with symbols, pending := b.pending ++ [⟨positive, id, args⟩] }

/-- Makes the literals at hand a clause. -/
def clause (b : Builder) : Builder :=
  { b with clauses := b.clauses ++ [.ofLiterals b.symbols b.pending], pending := [], scope := .empty }

/-- Makes the literal at hand a query; there has to be exactly one. -/
def query? (b : Builder) : Option Builder :=
  match b.pending with
  | [literal] => some { b with queries := b.queries ++ [literal], pending := [], scope := .empty }
  | _ => none

end Builder

end Refutation
