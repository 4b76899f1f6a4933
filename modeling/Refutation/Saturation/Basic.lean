import Refutation.Clause.Collection
import Refutation.Resolution
import Refutation.Saturation.Tally

/-!
Saturation: the search for the empty clause. A pass takes the clauses known at its beginning, shorter
ones first, and resolves every two of them; what it finds is known from the next pass on. The search
ends when it meets the empty clause, when a pass finds nothing new, or when the clock runs out.

The search goes by passes: a scan is structural in the pairs of clauses of one pass, and a run in a
number of passes. Both are written for any monad in which one can ask whether time is up, as the
program asks the machine. `Search.scan`, `Search.pass` and `Search.runFor` ask a clock, which says for
each look at a pair whether time is up by then.
-/

namespace Refutation

inductive Verdict where
  | refuted
  | saturated
  | timedOut
deriving DecidableEq

/-- Whether time is up when so many pairs were looked at before. -/
abbrev Clock := Nat → Bool

def Clock.never : Clock := fun _ => false

def Clock.atOnce : Clock := fun _ => true

/-- Asks a clock, which needs no effect. -/
abbrev Clock.ask (clock : Clock) : Nat → Id Bool := fun looks => pure (clock looks)

/-- The choices of a search that have no influence on what it decides: whether pairs that cannot
resolve are skipped, and in which order the resolvents of a pair are recorded. -/
structure Policy where
  skips : Bool
  enumerate : Nat → List Clause → List Clause
  enumerate_perm : ∀ n cs, (enumerate n cs).Perm cs

def Policy.standard : Policy := ⟨true, fun _ cs => cs, fun _ _ => .refl _⟩

structure Search where
  known : ClauseSet
  found : ClauseSet
  supply : Supply
  tally : Tally
  sizes : List Nat

/-- How a search ended, and its state then. -/
structure Outcome where
  verdict : Verdict
  final : Search

inductive Status where
  | running (search : Search)
  | finished (outcome : Outcome)

def Status.outcome? : Status → Option Outcome
  | .running _ => none
  | .finished outcome => some outcome

/-- Every two clauses of a list, the earlier one first. -/
def pairs : List Clause → List (Clause × Clause)
  | [] => []
  | c :: cs => cs.map (fun d => (c, d)) ++ pairs cs

namespace Search

def start (known : ClauseSet) (supply : Supply) : Search :=
  ⟨known, .empty, supply, .start known.size, []⟩

/-- How many pairs were looked at so far. -/
def looks (search : Search) : Nat := search.tally.examined + search.tally.skipped

/-- The clauses known at the beginning of a pass, shorter ones first. -/
def snapshot (search : Search) : List Clause :=
  search.known.toList.mergeSort fun c d => decide (c.size ≤ d.size)

/-- Begins a pass and notes how many clauses it takes. -/
def beginPass (search : Search) : Search :=
  { search with
    found := .empty
    tally := search.tally.count .pass
    sizes := search.sizes ++ [search.known.size] }

/-- Looks at one pair of clauses. -/
def lookAt (policy : Policy) (symbols : Symbols) (c d : Clause) (search : Search) : Status :=
  if policy.skips && !c.complementary d then
    .running { search with tally := search.tally.count .skipped }
  else
    let (found, supply) := c.resolve symbols d search.supply
    let resolvents := policy.enumerate search.looks found
    let tally := (search.tally.count .examined).count (.resolvents resolvents.length)
    if resolvents.any Clause.isEmpty then
      .finished ⟨.refuted, { search with supply, tally }⟩
    else
      .running { search with found := search.found.insertAll resolvents, supply, tally }

/-- Ends a pass: the search is over if all that was found was known, otherwise it is known from now
on. -/
def endPass (search : Search) : Status :=
  if search.found.toList.all search.known.contains then .finished ⟨.saturated, search⟩
  else
    let known := search.known.insertAll search.found.toList
    .running { search with known, tally := search.tally.count (.retained known.size) }

section Loops

variable {m : Type → Type} [Monad m] (policy : Policy) (symbols : Symbols) (timeUp : Nat → m Bool)

/-- Looks at pairs of clauses until time is up, which is asked before every look. -/
@[specialize] def scanM : List (Clause × Clause) → Search → m Status
  | [], search => return .running search
  | (c, d) :: rest, search => do
      if ← timeUp search.looks then return .finished ⟨.timedOut, search⟩
      match search.lookAt policy symbols c d with
      | .finished outcome => return .finished outcome
      | .running search => scanM rest search

@[specialize] def passM (search : Search) : m Status := do
  match ← scanM policy symbols timeUp (pairs search.snapshot) search.beginPass with
  | .finished outcome => return .finished outcome
  | .running search => return search.endPass

/-- Makes at most so many passes. -/
@[specialize] def runForM : Nat → Search → m Status
  | 0, search => return .running search
  | n + 1, search => do
      match ← passM policy symbols timeUp search with
      | .finished outcome => return .finished outcome
      | .running search => runForM n search

/-- Searches for so many passes; there is nothing to search if the empty clause is known. -/
@[specialize] def saturateForM (passes : Nat) (search : Search) : m Status :=
  if search.known.toList.any Clause.isEmpty then return .finished ⟨.refuted, search⟩
  else runForM policy symbols timeUp passes search

end Loops

section Clocks

variable (policy : Policy) (symbols : Symbols) (clock : Clock)

def scan (todo : List (Clause × Clause)) (search : Search) : Status :=
  Id.run (scanM policy symbols clock.ask todo search)

def pass (search : Search) : Status := Id.run (passM policy symbols clock.ask search)

def runFor (passes : Nat) (search : Search) : Status :=
  Id.run (runForM policy symbols clock.ask passes search)

def saturateFor (passes : Nat) (search : Search) : Status :=
  Id.run (saturateForM policy symbols clock.ask passes search)

variable {policy symbols clock} {search : Search}

theorem scan_cons {c d : Clause} {rest : List (Clause × Clause)} :
    search.scan policy symbols clock ((c, d) :: rest) =
      if clock search.looks then .finished ⟨.timedOut, search⟩
      else
        match search.lookAt policy symbols c d with
        | .finished outcome => .finished outcome
        | .running search => search.scan policy symbols clock rest := rfl

theorem pass_eq : search.pass policy symbols clock =
    match search.beginPass.scan policy symbols clock (pairs search.snapshot) with
    | .finished outcome => .finished outcome
    | .running search => search.endPass := rfl

theorem runFor_zero : search.runFor policy symbols clock 0 = .running search := rfl

theorem runFor_succ {n : Nat} : search.runFor policy symbols clock (n + 1) =
    match search.pass policy symbols clock with
    | .finished outcome => .finished outcome
    | .running search => search.runFor policy symbols clock n := rfl

theorem saturateFor_eq {passes : Nat} : search.saturateFor policy symbols clock passes =
    if search.known.toList.any Clause.isEmpty then .finished ⟨.refuted, search⟩
    else search.runFor policy symbols clock passes := rfl

end Clocks

/-- Searches to the end. Passes are counted, and their number has a limit. -/
@[specialize] def saturateM {m : Type → Type} [Monad m] (symbols : Symbols) (timeUp : Nat → m Bool)
    (search : Search) : m Status :=
  saturateForM .standard symbols timeUp Tally.limit search

def saturate (symbols : Symbols) (clock : Clock) (search : Search) : Status :=
  Id.run (saturateM symbols clock.ask search)

end Search

/-- The lines that a search writes: its passes and its counters. -/
def Outcome.lines (outcome : Outcome) : List String :=
  (outcome.final.sizes.mapIdx fun i n => s!"pass {i + 1}: {n} clauses") ++ outcome.final.tally.lines

end Refutation
