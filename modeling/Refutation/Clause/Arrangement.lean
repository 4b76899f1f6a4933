import Refutation.Clause.StandardForm
import Refutation.Selection

/-!
The canonical arrangement of a list of literals: among the orders that agree with `Literal.compare`,
one whose standard form is least under `Literal.compareExact`.

The search grows all arrangements together, one literal at a time. Only literals tied under `compare`
compete for a place; of the competitors only those with the least standard form stay, and of those
that agree in everything that still matters only the first.
-/

namespace Refutation

/-- The beginning of an order, its standard form, and the literals that have no place yet. -/
structure Arrangement where
  chosen : List Literal
  standard : List Literal
  naming : Naming
  rest : List Literal
  named : naming = .ofList (chosen.flatMap Literal.vars)
  standardized : standard = standardForm chosen

namespace Arrangement

def start (sorted : List Literal) : Arrangement := ⟨[], [], .empty, sorted, rfl, rfl⟩

private theorem named_place (a : Arrangement) (literal : Literal) :
    a.naming.addAll literal.vars = .ofList ((a.chosen ++ [literal]).flatMap Literal.vars) := by
  rw [a.named, naming_append]

private theorem standardized_place (a : Arrangement) (literal : Literal) :
    a.standard ++ [literal.rename (a.naming.addAll literal.vars).index] =
      standardForm (a.chosen ++ [literal]) := by
  rw [a.standardized, a.named, standardForm_append]

/-- Gives the next place to a literal; the first part is its standard form there. -/
def place (a : Arrangement) (literal : Literal) (rest : List Literal) : Literal × Arrangement :=
  let naming := a.naming.addAll literal.vars
  let standard := literal.rename naming.index
  (standard, ⟨a.chosen ++ [literal], a.standard ++ [standard], naming, rest, named_place a literal,
    standardized_place a literal⟩)

/-- The arrangements one literal longer: the next place goes to a literal tied with the first that
has none. -/
def successors (symbols : Symbols) (a : Arrangement) : List (Literal × Arrangement) :=
  match a.rest with
  | [] => []
  | first :: _ =>
      ((picks a.rest).filter fun p => p.1.compare symbols first == .eq).map fun p => a.place p.1 p.2

/-- All that the rest of the search depends on: the literals left, and the names that their variables
have already. -/
def key (a : Arrangement) : List Literal × List (Option VarId) :=
  (a.rest, (a.rest.flatMap Literal.vars).map a.naming.index?)

def extend (symbols : Symbols) (frontier : List Arrangement) : List Arrangement :=
  let next := minima (Literal.compareExact symbols) (frontier.flatMap (successors symbols))
  distinctBy key (next.map Prod.snd)

/-- The arrangements that are still in the search after a number of places. -/
def frontier (symbols : Symbols) (sorted : List Literal) : Nat → List Arrangement
  | 0 => [start sorted]
  | n + 1 => extend symbols (frontier symbols sorted n)

/-- The canonical arrangement of sorted literals; of several it is the last one found. -/
def best (symbols : Symbols) (sorted : List Literal) : Arrangement :=
  ((frontier symbols sorted sorted.length).getLast?).getD (start sorted)

end Arrangement

end Refutation
