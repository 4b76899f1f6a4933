import Refutation.Problem.Basic

/-!
What clauses and queries mean. An interpretation has a domain that is not empty, an element for each
constant, a function on lists of elements for each function symbol and a relation on lists of
elements for each predicate. A clause is true in it if under every assignment of elements to
variables some literal holds.
-/

namespace Refutation

universe u

structure Interpretation where
  Domain : Type u
  nonempty : Nonempty Domain
  const : SymbolId → Domain
  function : SymbolId → List Domain → Domain
  relation : SymbolId → List Domain → Prop

namespace Interpretation

mutual

/-- The element that a term stands for under an assignment. -/
def eval (I : Interpretation.{u}) (assign : VarId → I.Domain) : Term → I.Domain
  | .const c => I.const c
  | .var x => assign x
  | .app f args => I.function f (evalAll I assign args)

def evalAll (I : Interpretation.{u}) (assign : VarId → I.Domain) : List Term → List I.Domain
  | [] => []
  | t :: ts => eval I assign t :: evalAll I assign ts

end

/-- Whether a literal is true under an assignment. -/
def Holds (I : Interpretation.{u}) (assign : VarId → I.Domain) (l : Literal) : Prop :=
  if l.positive then I.relation l.predicate (I.evalAll assign l.args)
  else ¬ I.relation l.predicate (I.evalAll assign l.args)

/-- Whether a clause is true under every assignment. -/
def Models (I : Interpretation.{u}) (c : Clause) : Prop := ∀ assign, ∃ l ∈ c.literals, I.Holds assign l

end Interpretation

/-- Whether some instance of the query is true wherever all clauses of the problem are. -/
def Problem.Entails (p : Problem) (query : Literal) : Prop :=
  ∀ I : Interpretation.{u}, (∀ c ∈ p.clauses, I.Models c) → ∃ assign, I.Holds assign query

end Refutation
