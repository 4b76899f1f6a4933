/-!
The counters of one search: how many clauses it began with, how many passes it made, how many pairs
of clauses it resolved or skipped, how many resolvents it met, and how many clauses it knows.
-/

namespace Refutation

structure Tally where
  initial : Nat
  passes : Nat
  examined : Nat
  skipped : Nat
  resolvents : Nat
  retained : Nat
deriving DecidableEq

namespace Tally

/-- The counters of a search that begins with so many clauses. -/
def start (clauses : Nat) : Tally := ⟨clauses, 0, 0, 0, 0, clauses⟩

inductive Event where
  | pass
  | examined
  | skipped
  | resolvents (count : Nat)
  | retained (count : Nat)

/-- Counts an event. The number of clauses known is set, everything else is added up. -/
def count (tally : Tally) : Event → Tally
  | .pass => { tally with passes := tally.passes + 1 }
  | .examined => { tally with examined := tally.examined + 1 }
  | .skipped => { tally with skipped := tally.skipped + 1 }
  | .resolvents n => { tally with resolvents := tally.resolvents + n }
  | .retained n => { tally with retained := n }

/-- The largest value of a counter. -/
def limit : Nat := Nat.pow 2 64 - 1

def Fits (tally : Tally) : Prop :=
  tally.passes ≤ limit ∧ tally.examined ≤ limit ∧ tally.skipped ≤ limit ∧ tally.resolvents ≤ limit

instance (tally : Tally) : Decidable tally.Fits :=
  inferInstanceAs (Decidable (_ ∧ _ ∧ _ ∧ _))

/-- Counts an event unless a counter would pass its limit. -/
def count? (tally : Tally) (event : Event) : Option Tally :=
  let after := tally.count event
  if after.Fits then some after else none

def lines (tally : Tally) : List String :=
  [s!"initial clauses: {tally.initial}",
   s!"saturation passes: {tally.passes}",
   s!"examined pairs: {tally.examined}",
   s!"skipped pairs: {tally.skipped}",
   s!"resolvents: {tally.resolvents}",
   s!"retained clauses: {tally.retained}"]

end Tally

end Refutation
