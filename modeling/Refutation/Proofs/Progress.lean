import Refutation.Proofs.Passes

/-!
What a search counts, and that it gets ahead. Looks at pairs leave alone what is known, the number of
passes and the number of clauses on record. A pass that does not end the search adds to the clauses
known, so a search that knows no more than so many clauses ends.
-/

namespace Refutation

theorem ClauseSet.nodup_toList (known : ClauseSet) : known.toList.Nodup :=
  known.pairwise_toList.imp fun differ same => differ (congrArg Clause.canonical same)

theorem ClauseSet.size_lt_insertAll {known : ClauseSet} {cs : List Clause} {c : Clause} (new : c ∈ cs)
    (unmet : known.contains c = false) : known.size < (known.insertAll cs).size := by
  obtain ⟨d, inside, same⟩ := known.exists_same_insertAll new
  have absent : d ∉ known.toList := by
    intro old
    have met := (known.contains_eq_true_iff c).mpr ⟨d, old, same⟩
    rw [unmet] at met
    cases met
  have distinct : (d :: known.toList).Nodup := List.nodup_cons.mpr ⟨absent, known.nodup_toList⟩
  have bound := distinct.length_le_of_subset (List.cons_subset.mpr ⟨inside, known.subset_insertAll cs⟩)
  rw [size_eq_length, size_eq_length]
  exact bound

/-- The state that a search is in or ended with. -/
def Status.search : Status → Search
  | .running search => search
  | .finished outcome => outcome.final

namespace Search

variable {policy : Policy} {symbols : Symbols} {clock : Clock} {before after : Search} {outcome : Outcome}

/-- What looks at pairs leave alone. -/
structure Alike (before after : Search) : Prop where
  known : after.known = before.known
  passes : after.tally.passes = before.tally.passes
  retained : after.tally.retained = before.tally.retained
  sizes : after.sizes = before.sizes

theorem lookAt_alike (policy : Policy) (symbols : Symbols) (c d : Clause) (before : Search) :
    before.Alike (before.lookAt policy symbols c d).search := by
  unfold lookAt
  split
  · exact ⟨rfl, rfl, rfl, rfl⟩
  · simp only
    split
    · exact ⟨rfl, rfl, rfl, rfl⟩
    · exact ⟨rfl, rfl, rfl, rfl⟩

theorem scan_alike (policy : Policy) (symbols : Symbols) (clock : Clock) (todo : List (Clause × Clause))
    (before : Search) :
    before.Alike (before.scan policy symbols clock todo).search := by
  induction todo generalizing before with
  | nil => exact ⟨rfl, rfl, rfl, rfl⟩
  | cons pair rest ih =>
      obtain ⟨c, d⟩ := pair
      have first := before.lookAt_alike policy symbols c d
      rw [scan_cons]
      split
      · exact ⟨rfl, rfl, rfl, rfl⟩
      · split
        · next ended =>
            rw [ended] at first
            exact first
        · next between looked =>
            rw [looked] at first
            have later := ih between
            exact ⟨later.known.trans first.known, later.passes.trans first.passes,
              later.retained.trans first.retained, later.sizes.trans first.sizes⟩

/-- A look takes variables from the supply as the resolvents need them, and records nothing else than them. -/
theorem lookAt_found (policy : Policy) (symbols : Symbols) (c d : Clause) (before : Search) :
    (before.lookAt policy symbols c d).search.supply = (c.resolve symbols d before.supply).2 ∧
      ∀ r ∈ (before.lookAt policy symbols c d).search.found.toList,
        r ∈ before.found.toList ∨ r ∈ (c.resolve symbols d before.supply).1 := by
  cases look : before.lookAt policy symbols c d with
  | running after =>
      obtain ⟨resolvents, perm, -, -, found, supply⟩ := lookAt_eq_running look
      refine ⟨supply, fun r member => ?_⟩
      change r ∈ after.found.toList at member
      rw [found] at member
      exact (ClauseSet.mem_of_mem_insertAll member).imp_right (perm.subset ·)
  | finished outcome =>
      unfold lookAt at look
      split at look
      · cases look
      · simp only at look
        split at look
        · cases look
          exact ⟨rfl, fun r member => .inl member⟩
        · cases look

/-- A pass that goes on is counted, has found a clause that was not known, and puts on record how many
are known now. -/
theorem pass_running_counts (made : before.pass policy symbols clock = .running after) :
    after.tally.passes = before.tally.passes + 1 ∧ after.tally.retained = after.known.size ∧
      before.known.size < after.known.size := by
  have scanned := before.beginPass.scan_alike policy symbols clock (pairs before.snapshot)
  rw [pass_eq] at made
  split at made
  · cases made
  · next between running =>
      rw [running] at scanned
      unfold endPass at made
      split at made
      · cases made
      · next more =>
          cases made
          have known : between.known = before.known := scanned.known
          rw [List.all_eq_true] at more
          push Not at more
          obtain ⟨c, new, unmet⟩ := more
          rw [ne_eq, Bool.not_eq_true] at unmet
          refine ⟨scanned.passes, rfl, ?_⟩
          rw [← known]
          exact ClauseSet.size_lt_insertAll new unmet

/-- The pass that ends a search is counted, and what was known before it is on record. -/
theorem pass_finished_counts (made : before.pass policy symbols clock = .finished outcome) :
    outcome.final.tally.passes = before.tally.passes + 1 ∧
      outcome.final.tally.retained = before.tally.retained ∧ outcome.final.known = before.known := by
  have scanned := before.beginPass.scan_alike policy symbols clock (pairs before.snapshot)
  rw [pass_eq] at made
  split at made
  · next ended =>
      cases made
      rw [ended] at scanned
      exact ⟨scanned.passes, scanned.retained, scanned.known⟩
  · next between running =>
      rw [running] at scanned
      unfold endPass at made
      split at made
      · cases made
        exact ⟨scanned.passes, scanned.retained, scanned.known⟩
      · cases made

/-- Every pass notes how many clauses it begins with. -/
theorem sizes_pass (policy : Policy) (symbols : Symbols) (clock : Clock) (before : Search) :
    (before.pass policy symbols clock).search.sizes = before.sizes ++ [before.known.size] := by
  have scanned := before.beginPass.scan_alike policy symbols clock (pairs before.snapshot)
  rw [pass_eq]
  split
  · next ended =>
      rw [ended] at scanned
      exact scanned.sizes
  · next between running =>
      rw [running] at scanned
      unfold endPass
      split
      · exact scanned.sizes
      · exact scanned.sizes

/-- A pass ends the search in the state that its looks lead to. -/
theorem final_of_pass (made : before.pass policy symbols clock = .finished outcome) :
    outcome.final = (before.beginPass.scan policy symbols clock (pairs before.snapshot)).search := by
  rw [pass_eq] at made
  split at made
  · next ended =>
      cases made
      rw [ended]
      rfl
  · next between running =>
      rw [running]
      unfold endPass at made
      split at made
      · cases made
        rfl
      · cases made

section Passes

variable {n : Nat}

theorem passes_of_running (made : before.runFor policy symbols clock n = .running after) :
    after.tally.passes = before.tally.passes + n := by
  induction n generalizing before with
  | zero =>
      cases made
      rfl
  | succ n ih =>
      rw [runFor_succ] at made
      split at made
      · cases made
      · next between first =>
          have one := (pass_running_counts first).1
          have rest := ih made
          omega

/-- A search that ended did so in the pass that it counts last. -/
theorem passes_of_finished (made : before.runFor policy symbols clock n = .finished outcome) :
    ∃ k < n, outcome.final.tally.passes = before.tally.passes + (k + 1) ∧
      before.runFor policy symbols clock (k + 1) = .finished outcome := by
  obtain ⟨k, last, run, final⟩ := exists_pass_of_finished made
  have earlier : k < n := by
    by_contra late
    rw [runFor_of_finished made (Nat.le_of_not_lt late)] at run
    cases run
  have counted := passes_of_running run
  have one := (pass_finished_counts final).1
  exact ⟨k, earlier, by omega, (runFor_succ_of_running run).trans final⟩

theorem size_add_le_of_runFor (made : before.runFor policy symbols clock n = .running after) :
    before.known.size + n ≤ after.known.size := by
  induction n generalizing before with
  | zero =>
      cases made
      exact Nat.le_refl _
  | succ n ih =>
      rw [runFor_succ] at made
      split at made
      · cases made
      · next between first =>
          have grown := (pass_running_counts first).2.2
          have rest := ih made
          omega

end Passes

end Search

namespace Problem

variable {p : Problem} {policy : Policy} {query : Literal} {outcome : Outcome}

/-- Whether the search for a refutation of a query, given passes enough and no deadline, has an outcome. -/
def Ends (p : Problem) (policy : Policy) (query : Literal) (outcome : Outcome) : Prop :=
  ∃ passes, ∀ limit, passes ≤ limit → p.proveFor policy .never limit query = .finished outcome

/-- The passes that an outcome counts are those that it takes. -/
theorem proveFor_eq_finished_iff {n : Nat} : p.proveFor policy .never n query = .finished outcome ↔
    p.Ends policy query outcome ∧ outcome.final.tally.passes ≤ n := by
  constructor
  · intro made
    refine ⟨⟨n, fun limit => proveFor_of_finished made⟩, ?_⟩
    rw [proveFor_eq] at made
    split at made
    · cases made
      exact Nat.zero_le n
    · obtain ⟨k, bound, counted, -⟩ := Search.passes_of_finished made
      have zero : (p.search query).tally.passes = 0 := rfl
      omega
  · rintro ⟨⟨passes, ends⟩, bound⟩
    have made := ends passes (Nat.le_refl _)
    rw [proveFor_eq] at made ⊢
    split at made
    · next empty =>
        rw [if_pos empty]
        exact made
    · next nonempty =>
        obtain ⟨k, -, counted, last⟩ := Search.passes_of_finished made
        have zero : (p.search query).tally.passes = 0 := rfl
        rw [if_neg nonempty]
        exact Search.runFor_of_finished last (by omega)

/-- A search that never knows more than so many clauses ends after as many passes and one more. -/
theorem exists_ends_of_bounded {bound : Nat} (bounded : ∀ n last,
      (p.search query).runFor policy p.symbols .never n = .running last → last.known.size ≤ bound) :
    ∃ outcome, p.Ends policy query outcome := by
  cases made : p.proveFor policy .never (bound + 1) query with
  | finished outcome => exact ⟨outcome, (proveFor_eq_finished_iff.mp made).1⟩
  | running last =>
      rw [proveFor_eq] at made
      split at made
      · cases made
      · have grown := Search.size_add_le_of_runFor made
        have small := bounded _ last made
        omega

theorem Ends.ne_timedOut (ends : p.Ends policy query outcome) : outcome.verdict ≠ .timedOut := by
  obtain ⟨passes, made⟩ := ends
  replace made := made passes (Nat.le_refl passes)
  rw [proveFor_eq] at made
  split at made
  · cases made
    exact Verdict.noConfusion
  · obtain ⟨k, last, -, final⟩ := Search.exists_pass_of_finished made
    exact Search.verdict_ne_timedOut final

theorem Ends.unique {other : Outcome} (ends : p.Ends policy query outcome)
    (again : p.Ends policy query other) : outcome = other := by
  obtain ⟨n, left⟩ := ends
  obtain ⟨k, right⟩ := again
  exact proveFor_unique (left n (Nat.le_refl n)) (right k (Nat.le_refl k))

end Problem

end Refutation
