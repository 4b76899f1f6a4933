import Mathlib.Data.Nat.Choose.Basic
import Refutation.Proofs.Effort
import Refutation.Proofs.Factoring

/-!
The accounts of a search. Every look is counted once, as a pair that was resolved or one that was skipped, and a pass
that goes through looks at every two of the clauses that it began with. The clauses that a pass adds are among the
resolvents that it has met. So the counters agree with the numbers of clauses that the passes have noted: these begin
with the clauses that were given, grow from pass to pass, and end with the clauses retained.

The counters are changed at different places, by a look, by the beginning of a pass and by its end. `Adds` says what
looks do to them and `Accounted` what holds between two passes; the pass that ends the search is read off both.
-/

namespace Refutation

theorem sumOf_append {α : Type} (f : α → Nat) (as bs : List α) : sumOf f (as ++ bs) = sumOf f as + sumOf f bs := by
  induction as with
  | nil => exact (Nat.zero_add _).symm
  | cons a as ih => rw [List.cons_append, sumOf, sumOf, ih, Nat.add_assoc]

/-- How many pairs there are in passes that begin with so many clauses. -/
def pairsInPasses (sizes : List Nat) : Nat := sumOf (fun n => n * (n - 1) / 2) sizes

theorem pairsInPasses_append_singleton (sizes : List Nat) (n : Nat) :
    pairsInPasses (sizes ++ [n]) = pairsInPasses sizes + n * (n - 1) / 2 := sumOf_append _ sizes [n]

theorem length_pairs (cs : List Clause) : (pairs cs).length = cs.length * (cs.length - 1) / 2 := by
  induction cs with
  | nil => rfl
  | cons c cs ih =>
      rw [pairs, List.length_append, List.length_map, ih, List.length_cons, Nat.triangle_succ, Nat.add_comm]

namespace ClauseSet

theorem size_insert_le (known : ClauseSet) (c : Clause) : (known.insert c).size ≤ known.size + 1 := by
  rw [size_eq_length, size_eq_length, toList_insert]
  split
  · exact Nat.le_succ _
  · rw [List.length_append, List.length_singleton]

theorem size_insertAll_le (known : ClauseSet) (cs : List Clause) :
    (known.insertAll cs).size ≤ known.size + cs.length := by
  induction cs generalizing known with
  | nil => exact Nat.le_refl _
  | cons c cs ih =>
      have first := known.size_insert_le c
      have rest : ((known.insert c).insertAll cs).size ≤ (known.insert c).size + cs.length := ih (known.insert c)
      show ((known.insert c).insertAll cs).size ≤ _
      rw [List.length_cons]
      omega

end ClauseSet

namespace Search

variable {policy : Policy} {symbols : Symbols} {before between after : Search} {outcome : Outcome}

theorem length_snapshot (search : Search) : search.snapshot.length = search.known.size := by
  rw [snapshot, List.length_mergeSort, ClauseSet.size_eq_length]

/-- What so many looks add: each is counted, and no clause is found that was not counted as a resolvent. -/
structure Adds (before after : Search) (count : Nat) : Prop where
  looks : after.looks = before.looks + count
  found : after.found.size + before.tally.resolvents ≤ before.found.size + after.tally.resolvents

theorem Adds.trans {m n : Nat} (first : Adds before between m) (second : Adds between after n) :
    Adds before after (m + n) where
  looks := by rw [second.looks, first.looks, Nat.add_assoc]
  found := by
    have one := first.found
    have two := second.found
    omega

theorem lookAt_adds (policy : Policy) (symbols : Symbols) (c d : Clause) (before : Search) :
    Adds before (before.lookAt policy symbols c d).search 1 := by
  unfold lookAt
  split
  · exact ⟨rfl, Nat.le_refl _⟩
  · simp only
    split
    · refine ⟨Nat.succ_add _ _, ?_⟩
      simp only [Status.search, Tally.count]
      omega
    · refine ⟨Nat.succ_add _ _, ?_⟩
      simp only [Status.search, Tally.count]
      have more := before.found.size_insertAll_le (policy.enumerate before.looks (c.resolve symbols d before.supply).1)
      omega

theorem examined_of_finished {c d : Clause} (look : before.lookAt policy symbols c d = .finished outcome) :
    0 < outcome.final.tally.examined := by
  unfold lookAt at look
  split at look
  · cases look
  · simp only at look
    split at look
    · cases look
      exact Nat.succ_pos _
    · cases look

/-- Without a deadline a scan ends the search only with the empty clause, from a pair that it resolved. -/
theorem refuted_of_scan {todo : List (Clause × Clause)}
    (scanned : before.scan policy symbols .never todo = .finished outcome) :
    outcome.verdict = .refuted ∧ 0 < outcome.final.tally.examined := by
  obtain ⟨_, _, _, _, _, -, -, late | look⟩ := scanned_of_finished scanned
  · exact absurd late.1 Bool.false_ne_true
  · exact ⟨(lookAt_eq_finished look).1, examined_of_finished look⟩

/-- Without a deadline a scan that ends the search has looked at one pair at least, and any other has looked at all. -/
theorem scan_adds (policy : Policy) (symbols : Symbols) (todo : List (Clause × Clause)) (before : Search) :
    ∃ count ≤ todo.length, Adds before (before.scan policy symbols .never todo).search count ∧
      (∀ after, before.scan policy symbols .never todo = .running after → count = todo.length) ∧
      ∀ outcome, before.scan policy symbols .never todo = .finished outcome → 0 < count := by
  induction todo generalizing before with
  | nil =>
      refine ⟨0, Nat.le_refl 0, ⟨rfl, Nat.le_refl _⟩, fun _ _ => rfl, fun outcome scanned => ?_⟩
      cases scanned
  | cons pair rest ih =>
      obtain ⟨c, d⟩ := pair
      have first := before.lookAt_adds policy symbols c d
      simp only [scan_cons, if_neg (never_ne_true before.looks), List.length_cons]
      cases look : before.lookAt policy symbols c d with
      | finished outcome =>
          rw [look] at first
          refine ⟨1, by omega, first, fun after scanned => ?_, fun _ _ => Nat.one_pos⟩
          cases scanned
      | running between =>
          rw [look] at first
          obtain ⟨count, few, adds, all, -⟩ := ih between
          exact ⟨1 + count, by omega, first.trans adds, fun after scanned => by rw [all after scanned, Nat.add_comm],
            fun _ _ => by omega⟩

/-- What holds between two passes of a search that began with so many clauses. -/
structure Accounted (initial : Nat) (search : Search) : Prop where
  passes : search.sizes.length = search.tally.passes
  begins : (search.sizes ++ [search.known.size]).head? = some initial
  grows : (search.sizes ++ [search.known.size]).Pairwise (· < ·)
  retained : search.tally.retained = search.known.size
  met : search.known.size ≤ initial + search.tally.resolvents
  looks : search.looks = pairsInPasses search.sizes

theorem accounted_start (known : ClauseSet) (supply : Supply) : (start known supply).Accounted known.size where
  passes := rfl
  begins := rfl
  grows := List.pairwise_singleton _ _
  retained := rfl
  met := Nat.le_add_right _ _
  looks := rfl

section Passes

/-- A pass that goes on has looked at all pairs, and adds no more clauses than it has met resolvents. -/
theorem pass_running_adds (made : before.pass policy symbols .never = .running after) :
    after.looks = before.looks + before.known.size * (before.known.size - 1) / 2 ∧
      after.known.size + before.tally.resolvents ≤ before.known.size + after.tally.resolvents := by
  have same := before.beginPass.scan_alike policy symbols .never (pairs before.snapshot)
  obtain ⟨count, -, adds, all, -⟩ := before.beginPass.scan_adds policy symbols (pairs before.snapshot)
  rw [pass_eq] at made
  split at made
  · cases made
  · next scanned running =>
      have counted := all scanned running
      rw [running] at same adds
      have looks : scanned.looks = before.looks + (pairs before.snapshot).length := counted ▸ adds.looks
      have found : scanned.found.size + before.tally.resolvents ≤ scanned.tally.resolvents :=
        adds.found.trans_eq (Nat.zero_add _)
      have known : scanned.known = before.known := same.known
      have merged := scanned.known.size_insertAll_le scanned.found.toList
      rw [← ClauseSet.size_eq_length] at merged
      rw [length_pairs, length_snapshot] at looks
      unfold endPass at made
      split at made
      · cases made
      · cases made
        refine ⟨looks, ?_⟩
        show (scanned.known.insertAll scanned.found.toList).size + _ ≤ _ + scanned.tally.resolvents
        rw [known] at merged ⊢
        omega

/-- The pass that ends the search has looked at all pairs if it found nothing new, and otherwise at no more, the last of
them being one that was resolved. -/
theorem pass_finished_adds (made : before.pass policy symbols .never = .finished outcome) :
    before.tally.resolvents ≤ outcome.final.tally.resolvents ∧
    outcome.final.looks ≤ before.looks + before.known.size * (before.known.size - 1) / 2 ∧
    (outcome.verdict = .saturated →
      outcome.final.looks = before.looks + before.known.size * (before.known.size - 1) / 2) ∧
    (outcome.verdict = .refuted → before.looks < outcome.final.looks ∧ 0 < outcome.final.tally.examined) := by
  have final := final_of_pass made
  obtain ⟨count, few, adds, all, some⟩ := before.beginPass.scan_adds policy symbols (pairs before.snapshot)
  rw [← final] at adds
  rw [length_pairs, length_snapshot] at few all
  have looks : outcome.final.looks = before.looks + count := adds.looks
  have resolvents : before.tally.resolvents ≤ outcome.final.tally.resolvents := by
    have bound : outcome.final.found.size + before.tally.resolvents ≤ 0 + outcome.final.tally.resolvents := adds.found
    omega
  refine ⟨resolvents, by omega, ?_⟩
  rw [pass_eq] at made
  split at made
  · next scan =>
      cases made
      obtain ⟨refuted, examined⟩ := refuted_of_scan scan
      have one := some _ scan
      rw [refuted]
      exact ⟨nofun, fun _ => ⟨by omega, examined⟩⟩
  · next scanned scan =>
      unfold endPass at made
      split at made
      · cases made
        exact ⟨fun _ => by rw [looks, all scanned scan], nofun⟩
      · cases made

variable {initial : Nat}

/-- A pass that goes on keeps the accounts. -/
theorem Accounted.of_pass (accounted : before.Accounted initial)
    (made : before.pass policy symbols .never = .running after) : after.Accounted initial := by
  have noted : after.sizes = before.sizes ++ [before.known.size] := by
    rw [← before.sizes_pass policy symbols .never, made]
    rfl
  obtain ⟨passes, retained, larger⟩ := pass_running_counts made
  obtain ⟨looks, met⟩ := pass_running_adds made
  have below : ∀ n ∈ before.sizes, n < before.known.size := fun n member =>
    (List.pairwise_append.mp accounted.grows).2.2 n member _ (List.mem_singleton_self _)
  have earlier := accounted.met
  constructor
  · rw [noted, List.length_append, accounted.passes, passes]
    rfl
  · rw [noted, List.head?_append_of_ne_nil _ (by simp)]
    exact accounted.begins
  · rw [noted, List.pairwise_append]
    refine ⟨accounted.grows, List.pairwise_singleton _ _, fun n member m last => ?_⟩
    rw [List.mem_singleton.mp last]
    rcases List.mem_append.mp member with old | new
    · exact (below n old).trans larger
    · exact List.mem_singleton.mp new ▸ larger
  · exact retained
  · omega
  · rw [looks, accounted.looks, noted, pairsInPasses_append_singleton]

theorem Accounted.of_runFor {n : Nat} (accounted : before.Accounted initial)
    (made : before.runFor policy symbols .never n = .running after) : after.Accounted initial :=
  runFor_keeps (fun _ _ before pass => before.of_pass pass) made accounted

end Passes

/-- The accounts of a search without a deadline that began with clauses none of which is empty, and ended. Each of its
passes has noted with how many clauses it began: the first with those that were given, every other with more than the
one before, the last with those that are retained, and no more were added than resolvents were counted. If the search is
saturated, the pairs that were resolved and those that were skipped are all pairs of all passes. If it has refuted, they
are those of the passes before the last and some of the last, and at least one pair was resolved. -/
theorem accounts_agree (known : ClauseSet) (supply : Supply) (policy : Policy) (symbols : Symbols) (limit : Nat)
    (outcome : Outcome) (nonempty : ∀ c ∈ known.toList, c.isEmpty = false)
    (ended : (start known supply).saturateFor policy symbols .never limit = .finished outcome) :
    let sizes := outcome.final.sizes
    let tally := outcome.final.tally
    sizes.length = tally.passes ∧ sizes.head? = some known.size ∧ sizes.Pairwise (· < ·) ∧
    sizes.getLast? = some tally.retained ∧ tally.retained ≤ known.size + tally.resolvents ∧
    (outcome.verdict = .saturated → tally.examined + tally.skipped = pairsInPasses sizes) ∧
    (outcome.verdict = .refuted → pairsInPasses sizes.dropLast < tally.examined + tally.skipped ∧
      tally.examined + tally.skipped ≤ pairsInPasses sizes ∧ 0 < tally.examined) := by
  intro sizes tally
  have searched : ¬ (start known supply).known.toList.any Clause.isEmpty = true := by
    rw [List.any_eq_true]
    rintro ⟨c, member, empty⟩
    rw [nonempty c member] at empty
    cases empty
  rw [saturateFor_eq, if_neg searched] at ended
  obtain ⟨k, last, run, final⟩ := exists_pass_of_finished ended
  have accounted := (accounted_start known supply).of_runFor run
  obtain ⟨passes, retained, -⟩ := pass_finished_counts final
  obtain ⟨resolvents, few, all, begun⟩ := pass_finished_adds final
  have noted : sizes = last.sizes ++ [last.known.size] := by
    rw [← last.sizes_pass policy symbols .never, final]
    rfl
  have met : tally.retained ≤ known.size + tally.resolvents := by
    have earlier := accounted.met
    rw [← accounted.retained, ← retained] at earlier
    exact earlier.trans (Nat.add_le_add_left resolvents _)
  rw [accounted.looks, ← pairsInPasses_append_singleton, ← noted] at few all
  rw [accounted.looks] at begun
  refine ⟨?_, noted ▸ accounted.begins, noted ▸ accounted.grows, ?_, met, all, fun refuted => ?_⟩
  · rw [noted, List.length_append, accounted.passes]
    exact passes.symm
  · rw [noted, List.getLast?_concat, ← accounted.retained, ← retained]
  · rw [noted, List.dropLast_concat, ← noted]
    exact ⟨(begun refuted).1, few, (begun refuted).2⟩

end Search

theorem Clause.isEmpty_ofLiterals_cons (symbols : Symbols) (l : Literal) (literals : List Literal) :
    (ofLiterals symbols (l :: literals)).isEmpty = false :=
  List.isEmpty_eq_false_iff.mpr (List.ne_nil_of_mem ((mem_ofLiterals symbols _).mpr List.mem_cons_self))

namespace Problem

/-- Where no clause of a problem is empty, none is in the search for a query. -/
theorem nonempty_search {p : Problem} (nonempty : ∀ c ∈ p.clauses, c.isEmpty = false) (query : Literal) :
    ∀ c ∈ (p.search query).known.toList, c.isEmpty = false := by
  intro c member
  obtain ⟨bare, listed, supply, rfl⟩ := Clause.exists_of_mem_renameAll (mem_search (Search.mem_clauses member))
  have copied : (bare.rename supply).1.isEmpty = bare.isEmpty := List.isEmpty_map
  rw [copied]
  rcases List.mem_cons.mp listed with rfl | inside
  · rw [Clause.isEmpty, Clause.literals_ofLiterals_singleton]
    rfl
  · exact nonempty bare inside

/-- The accounts of two searches: for a mother of Ann, who is found, and for sun in Oslo where it rains everywhere. -/
theorem mothers_drizzle_accounts :
    (∃ outcome, (mothers.search ⟨true, 0, [.var 0, .const 2]⟩).saturateFor .standard mothers.symbols .never
        Tally.limit = .finished outcome ∧ outcome.verdict = .refuted ∧ 0 < outcome.final.tally.examined ∧
      pairsInPasses outcome.final.sizes.dropLast < outcome.final.tally.examined + outcome.final.tally.skipped ∧
      outcome.final.tally.examined + outcome.final.tally.skipped ≤ pairsInPasses outcome.final.sizes) ∧
    ∃ limit outcome, (Weather.drizzle.search ⟨true, 0, [.const 1]⟩).saturateFor .standard Weather.drizzle.symbols .never
        limit = .finished outcome ∧ outcome.verdict = .saturated ∧ outcome.final.sizes.Pairwise (· < ·) ∧
      outcome.final.sizes.getLast? = some outcome.final.tally.retained ∧
      outcome.final.tally.examined + outcome.final.tally.skipped = pairsInPasses outcome.final.sizes := by
  constructor
  · have nonempty : ∀ c ∈ mothers.clauses, c.isEmpty = false := by
      intro c member
      rw [List.mem_singleton.mp member]
      exact Clause.isEmpty_ofLiterals_cons _ _ _
    obtain ⟨outcome, refuted, made⟩ := mothers_refuted .standard
    have ended := made Tally.limit (by decide)
    obtain ⟨-, -, -, -, -, -, looks⟩ := Search.accounts_agree _ _ .standard _ _ outcome (nonempty_search nonempty _) ended
    exact ⟨outcome, ended, refuted, (looks refuted).2.2, (looks refuted).1, (looks refuted).2.1⟩
  · have nonempty : ∀ c ∈ Weather.drizzle.clauses, c.isEmpty = false := by
      intro c member
      simp only [Weather.drizzle, List.mem_cons, List.not_mem_nil, or_false] at member
      rcases member with rfl | rfl <;> exact Clause.isEmpty_ofLiterals_cons _ _ _
    obtain ⟨outcome, ⟨limit, made⟩, saturated⟩ := Weather.exists_saturated_drizzle
    have ended := made limit (Nat.le_refl _)
    obtain ⟨-, -, grows, last, -, looks, -⟩ :=
      Search.accounts_agree _ _ .standard _ _ outcome (nonempty_search nonempty _) ended
    exact ⟨limit, outcome, ended, saturated, grows, last, looks saturated⟩

end Problem

end Refutation
