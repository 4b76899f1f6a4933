import Refutation.Proofs.Levels

/-!
What a search shows of itself: whether it has ended and how, the passes that it made, how many clauses each
of them began with, and how many clauses are on record. Without a deadline all of this follows from the
derivations: how many sets there are within each depth, and within which depth the empty one is. Premises that
agree in these numbers are searched alike, pass by pass, whatever the order in which clauses are listed,
paired and recorded.
-/

namespace Refutation

/-- What can be derived with at most some depth, up to the names of variables. -/
def derivableWithin (given : Set LiteralSet) (k : Nat) : Set ClauseClass :=
  {κ | ∃ C, WithinDepth given k C ∧ ⟦C⟧ = κ}

/-- Whether as many sets can be derived from some premises as from others within every depth, and the empty
one within the same depths. -/
structure Similar (given given' : Set LiteralSet) : Prop where
  counts : ∀ k, (derivableWithin given k).ncard = (derivableWithin given' k).ncard
  empties : ∀ k, WithinDepth given k ∅ ↔ WithinDepth given' k ∅

namespace Similar

variable {given given' given'' : Set LiteralSet}

theorem refl (given : Set LiteralSet) : Similar given given := ⟨fun _ => rfl, fun _ => Iff.rfl⟩

theorem symm (similar : Similar given given') : Similar given' given :=
  ⟨fun k => (similar.counts k).symm, fun k => (similar.empties k).symm⟩

theorem trans (left : Similar given given') (right : Similar given' given'') : Similar given given'' :=
  ⟨fun k => (left.counts k).trans (right.counts k), fun k => (left.empties k).trans (right.empties k)⟩

end Similar

/-- What a search shows of itself. -/
structure Profile where
  verdict? : Option Verdict
  passes : Nat
  sizes : List Nat
  retained : Nat
deriving DecidableEq

def Status.verdict? : Status → Option Verdict
  | .running _ => none
  | .finished outcome => some outcome.verdict

def Status.profile (status : Status) : Profile :=
  ⟨status.verdict?, status.search.tally.passes, status.search.sizes, status.search.tally.retained⟩

/-- Two states of searches that are both under way and related, or have both ended and are related then. -/
inductive Status.Related (R : Search → Search → Prop) (E : Outcome → Outcome → Prop) : Status → Status → Prop
  | running {one other : Search} : R one other → Related R E (.running one) (.running other)
  | finished {one other : Outcome} : E one other → Related R E (.finished one) (.finished other)

theorem Status.Related.elim {R : Search → Search → Prop} {E : Outcome → Outcome → Prop}
    {Q : Status → Status → Prop} {one other : Status} (related : Related R E one other)
    (running : ∀ one other, R one other → Q (.running one) (.running other))
    (finished : ∀ one other, E one other → Q (.finished one) (.finished other)) : Q one other := by
  cases related with
  | running both => exact running _ _ both
  | finished both => exact finished _ _ both

open Classical in
/-- How a search ends in the pass after so many, according to the derivations. -/
noncomputable def verdictAt (given : Set LiteralSet) (k : Nat) : Option Verdict :=
  if WithinDepth given (k + 1) ∅ then some .refuted
  else if (derivableWithin given (k + 1)).ncard = (derivableWithin given k).ncard then some .saturated
  else none

/-- What the pass after so many shows, according to the derivations. What it has found goes on record only
if the search goes on. -/
noncomputable def profileAt (given : Set LiteralSet) (k : Nat) (sizes : List Nat) : Profile :=
  ⟨verdictAt given k, k + 1, sizes ++ [(derivableWithin given k).ncard],
    if verdictAt given k = none then (derivableWithin given (k + 1)).ncard else (derivableWithin given k).ncard⟩

theorem Similar.profileAt_eq {given given' : Set LiteralSet} (similar : Similar given given') (k : Nat)
    (sizes : List Nat) : profileAt given k sizes = profileAt given' k sizes := by
  classical
  have verdict : verdictAt given k = verdictAt given' k := by
    rw [verdictAt, similar.counts, similar.counts]
    exact if_congr (similar.empties (k + 1)) rfl rfl
  simp only [profileAt, verdict, similar.counts]

namespace Search

section Runs

variable {R : Search → Search → Prop} {E : Outcome → Outcome → Prop} {policy policy' : Policy}
  {symbols symbols' : Symbols} {clock clock' : Clock} {one other : Search}

/-- Searches that keep together in every pass keep together. -/
theorem runFor_related (step : ∀ {one other : Search}, R one other →
      Status.Related R E (one.pass policy symbols clock) (other.pass policy' symbols' clock'))
    (start : R one other) (n : Nat) :
    Status.Related R E (one.runFor policy symbols clock n) (other.runFor policy' symbols' clock' n) := by
  induction n generalizing one other with
  | zero => exact .running start
  | succ n ih =>
      have first := step start
      rw [runFor_succ, runFor_succ]
      generalize one.pass policy symbols clock = status at first ⊢
      generalize other.pass policy' symbols' clock' = status' at first ⊢
      cases first with
      | running related => exact ih related
      | finished related => exact .finished related

end Runs

section Levels

variable {policy policy' : Policy} {symbols symbols' : Symbols} {given given' : Set LiteralSet} {k : Nat}
  {search one other : Search} {outcome : Outcome}

theorem Knows.classes_eq (knows : search.Knows symbols given k) : search.classes = derivableWithin given k := by
  ext κ
  constructor
  · rintro ⟨c, member, rfl⟩
    exact ⟨c.toSet, knows.sound c member, rfl⟩
  · rintro ⟨C, within, rfl⟩
    obtain ⟨c, inside, variant⟩ := knows.complete C within
    exact ⟨c, inside, Quotient.sound variant.symm⟩

theorem Knows.size_eq (knows : search.Knows symbols given k) :
    search.known.size = (derivableWithin given k).ncard := by
  rw [← knows.classes_eq, knows.ncard_classes]

theorem Knows.any_isEmpty_iff (knows : search.Knows symbols given k) :
    search.known.toList.any Clause.isEmpty = true ↔ WithinDepth given k ∅ := by
  rw [List.any_eq_true]
  constructor
  · rintro ⟨c, member, empty⟩
    have within := knows.sound c member
    rwa [Clause.toSet_eq_empty_iff.mpr empty] at within
  · intro within
    obtain ⟨c, inside, variant⟩ := knows.complete ∅ within
    exact ⟨c, inside, Clause.toSet_eq_empty_iff.mp variant.symm.eq_empty⟩

/-- A search that is saturated has found nothing within one depth more. -/
theorem AtLevel.verdictAt_of_saturated (level : search.AtLevel symbols given k)
    (made : search.pass policy symbols .never = .finished outcome) (saturated : outcome.verdict = .saturated) :
    verdictAt given k = some .saturated := by
  have all := level.classes_eq_of_saturated made saturated
  have within : ∀ C, WithinDepth given (k + 1) C → ⟦C⟧ ∈ search.classes := by
    rintro C ⟨n, -, D, derived, variant⟩
    rw [all]
    exact mem_derivable_iff.mpr ⟨n, D, derived, variant⟩
  have still : derivableWithin given (k + 1) = derivableWithin given k := by
    apply Set.eq_of_subset_of_subset
    · rintro κ ⟨C, deeper, rfl⟩
      rw [← level.classes_eq]
      exact within C deeper
    · rintro κ ⟨C, shallow, rfl⟩
      exact ⟨C, shallow.succ, rfl⟩
  rw [verdictAt, if_neg fun empty => level.empty_notMem_classes (within ∅ empty), if_pos (by rw [still])]

theorem AtLevel.verdictAt_of_finished (level : search.AtLevel symbols given k)
    (made : search.pass policy symbols .never = .finished outcome) :
    verdictAt given k = some outcome.verdict := by
  cases verdict : outcome.verdict with
  | refuted => rw [verdictAt, if_pos (level.within_empty_of_refuted made verdict)]
  | saturated => exact level.verdictAt_of_saturated made verdict
  | timedOut => exact absurd verdict (verdict_ne_timedOut made)

theorem AtLevel.verdictAt_of_running {after : Search} (level : search.AtLevel symbols given k)
    (made : search.pass policy symbols .never = .running after) : verdictAt given k = none := by
  have next := level.of_pass made
  have grown := (pass_running_counts made).2.2
  rw [level.size_eq, next.size_eq] at grown
  rw [verdictAt, if_neg next.not_within_empty, if_neg (Nat.ne_of_gt grown)]

/-- What a pass shows follows from the derivations. -/
theorem AtLevel.profile_pass (level : search.AtLevel symbols given k) (policy : Policy) :
    (search.pass policy symbols .never).profile = profileAt given k search.sizes := by
  have sizes := search.sizes_pass policy symbols .never
  rw [level.size_eq] at sizes
  cases made : search.pass policy symbols .never with
  | running after =>
      have next := level.of_pass made
      rw [made] at sizes
      simp only [Status.profile, profileAt, level.verdictAt_of_running made, sizes]
      simp only [Status.search, Status.verdict?, next.passes, next.retained, next.size_eq, if_true]
  | finished outcome =>
      obtain ⟨passes, retained, -⟩ := pass_finished_counts made
      rw [made] at sizes
      simp only [Status.profile, profileAt, level.verdictAt_of_finished made, sizes]
      simp [Status.search, Status.verdict?, passes, retained, level.passes, level.retained, level.size_eq]

/-- Two searches at the same level, each of its own premises, that have shown the same sizes. -/
def Abreast (symbols symbols' : Symbols) (given given' : Set LiteralSet) (one other : Search) : Prop :=
  ∃ k, one.AtLevel symbols given k ∧ other.AtLevel symbols' given' k ∧ one.sizes = other.sizes

/-- A pass of two searches that are abreast shows the same of both, and they stay abreast. -/
theorem Abreast.pass (abreast : Abreast symbols symbols' given given' one other) (similar : Similar given given')
    (policy policy' : Policy) :
    Status.Related (Abreast symbols symbols' given given')
      (fun outcome outcome' => (Status.finished outcome).profile = (Status.finished outcome').profile)
      (one.pass policy symbols .never) (other.pass policy' symbols' .never) := by
  obtain ⟨k, level, level', sizes⟩ := abreast
  have same : (one.pass policy symbols .never).profile = (other.pass policy' symbols' .never).profile := by
    rw [level.profile_pass, level'.profile_pass, sizes, similar.profileAt_eq]
  -- one that goes on shows no verdict, so the two cannot part here
  cases left : one.pass policy symbols .never with
  | running after =>
      cases right : other.pass policy' symbols' .never with
      | running after' =>
          rw [left, right] at same
          exact .running ⟨k + 1, level.of_pass left, level'.of_pass right, congrArg Profile.sizes same⟩
      | finished outcome' =>
          rw [left, right] at same
          cases congrArg Profile.verdict? same
  | finished outcome =>
      cases right : other.pass policy' symbols' .never with
      | running after' =>
          rw [left, right] at same
          cases congrArg Profile.verdict? same
      | finished outcome' =>
          rw [left, right] at same
          exact .finished same

theorem Abreast.profile_eq (abreast : Abreast symbols symbols' given given' one other)
    (similar : Similar given given') : (Status.running one).profile = (Status.running other).profile := by
  obtain ⟨k, level, level', sizes⟩ := abreast
  simp only [Status.profile, Status.search, Status.verdict?, level.passes, level'.passes, level.retained,
    level'.retained, level.size_eq, level'.size_eq, similar.counts, sizes]

end Levels

end Search

/-- Searches for queries with similar premises show the same, however many passes they may make. -/
theorem Problem.profile_proveFor {p q : Problem} {query query' : Literal} (formed : p.Formed)
    (inTable : query.Over p.symbols) (formed' : q.Formed) (inTable' : query'.Over q.symbols)
    (similar : Similar (p.premises query) (q.premises query')) (policy policy' : Policy) (n : Nat) :
    (p.proveFor policy .never n query).profile = (q.proveFor policy' .never n query').profile := by
  have knows := knows_search formed inTable
  have knows' := knows_search formed' inTable'
  -- level zero, which both know whether or not the empty clause is among the premises
  have agree : (p.search query).known.toList.any Clause.isEmpty = true ↔
      (q.search query').known.toList.any Clause.isEmpty = true := by
    rw [knows.any_isEmpty_iff, knows'.any_isEmpty_iff, similar.empties]
  rw [proveFor_eq, proveFor_eq]
  by_cases empty : (p.search query).known.toList.any Clause.isEmpty = true
  · rw [if_pos empty, if_pos (agree.mp empty)]
    have retained : (p.search query).known.size = (q.search query').known.size := by
      rw [knows.size_eq, knows'.size_eq, similar.counts]
    exact congrArg (Profile.mk (some .refuted) 0 []) retained
  · rw [if_neg empty, if_neg (mt agree.mpr empty)]
    have start : Search.Abreast p.symbols q.symbols (p.premises query) (q.premises query') (p.search query)
        (q.search query') :=
      ⟨0, atLevel_search formed inTable empty, atLevel_search formed' inTable' (mt agree.mpr empty), rfl⟩
    have related := Search.runFor_related (fun abreast => abreast.pass similar policy policy') start n
    exact related.elim (Q := fun one other => one.profile = other.profile)
      (fun _ _ abreast => abreast.profile_eq similar) fun _ _ same => same

end Refutation
