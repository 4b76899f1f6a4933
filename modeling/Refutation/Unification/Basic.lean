import Refutation.Unification.Rank

/-!
Unification of two terms under bindings. The answer extends the bindings just enough to make the two
terms equal when read through them.
-/

namespace Refutation

namespace Unification

/-- Steps from a state in solved form until no equation is left or one has no solution. -/
def solve (m : Bindings) (solved : m.Solved) (pending : List Equation) : Option Bindings :=
  match pending with
  | [] => some m
  | (s, t) :: rest =>
      match done : stepOn m rest s t with
      | none => none
      | some state => solve state.bindings (stepOn_solved solved done) state.pending
termination_by State.rank ⟨m, pending⟩
decreasing_by exact stepOn_rank_lt solved done

end Unification

/-- The bindings that make two terms equal, if there are any. Bindings that are not in solved form
are refused. -/
def Bindings.unify (m : Bindings) (s t : Term) : Option Bindings :=
  if solved : m.Solved then Unification.solve m solved [(s, t)] else none

end Refutation
