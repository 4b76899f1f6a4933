import Refutation.Proofs.Profile

/-!
The filter of pairs cannot be seen. A pair without literals of opposite sign and one predicate has no resolvent and takes
no variable, so to skip it is to resolve it, but for the counter that the look goes to. Once it is forgotten to which of the
two counters each look went, a search that skips such pairs and one that resolves every pair are the same search: look
by look, pass by pass and to the end.
-/

namespace Refutation

/-- The same choices with every pair resolved. -/
def Policy.unfiltered (policy : Policy) : Policy := { policy with skips := false }

namespace Search

/-- Counts every look as one that resolved its pair. -/
def undivided (search : Search) : Search :=
  { search with tally := { search.tally with examined := search.looks, skipped := 0 } }

/-- Takes the resolvents of a pair into account. -/
def record (search : Search) (resolvents : List Clause) (supply : Supply) : Status :=
  let tally := (search.tally.count .examined).count (.resolvents resolvents.length)
  if resolvents.any Clause.isEmpty then .finished ⟨.refuted, { search with supply, tally }⟩
  else .running { search with found := search.found.insertAll resolvents, supply, tally }

end Search

def Status.undivided : Status → Status
  | .running search => .running search.undivided
  | .finished outcome => .finished ⟨outcome.verdict, outcome.final.undivided⟩

namespace Search

variable (policy : Policy) (symbols : Symbols) (clock : Clock)

theorem lookAt_eq_record (c d : Clause) (search : Search) : search.lookAt policy symbols c d =
    if policy.skips && !c.complementary d then .running { search with tally := search.tally.count .skipped }
    else search.record (policy.enumerate search.looks (c.resolve symbols d search.supply).1)
      (c.resolve symbols d search.supply).2 := rfl

theorem undivided_record (search : Search) (resolvents : List Clause) (supply : Supply) :
    (search.record resolvents supply).undivided = search.undivided.record resolvents supply := by
  have counted : search.tally.examined + 1 + search.tally.skipped =
      search.tally.examined + search.tally.skipped + 1 := Nat.add_right_comm _ _ _
  unfold record
  split <;> simp only [Status.undivided, undivided, looks, Tally.count, counted]

/-- To skip a pair is, but for the counters, to find it without resolvents. -/
theorem undivided_skipped (search : Search) :
    (Status.running { search with tally := search.tally.count .skipped }).undivided =
      search.undivided.record [] search.supply := rfl

theorem undivided_lookAt (c d : Clause) (search : Search) :
    (search.lookAt policy symbols c d).undivided = search.undivided.lookAt policy.unfiltered symbols c d := by
  have resolves : search.undivided.lookAt policy.unfiltered symbols c d =
      search.undivided.record (policy.enumerate search.looks (c.resolve symbols d search.supply).1)
        (c.resolve symbols d search.supply).2 := rfl
  rw [lookAt_eq_record, resolves]
  split
  · next skips =>
      rw [Bool.and_eq_true, Bool.not_eq_true'] at skips
      rw [undivided_skipped, Clause.resolve_of_not_complementary symbols search.supply skips.2,
        (policy.enumerate_perm search.looks []).eq_nil]
  · rw [undivided_record]

theorem undivided_scan (todo : List (Clause × Clause)) (search : Search) :
    (search.scan policy symbols clock todo).undivided =
      search.undivided.scan policy.unfiltered symbols clock todo := by
  induction todo generalizing search with
  | nil => rfl
  | cons pair rest ih =>
      obtain ⟨c, d⟩ := pair
      have first := undivided_lookAt policy symbols c d search
      have looks : search.undivided.looks = search.looks := rfl
      rw [scan_cons, scan_cons, looks, ← first]
      split
      · rfl
      · cases search.lookAt policy symbols c d with
        | running between => exact ih between
        | finished outcome => rfl

theorem undivided_endPass (search : Search) : search.endPass.undivided = search.undivided.endPass := by
  have known : search.undivided.known = search.known := rfl
  have found : search.undivided.found = search.found := rfl
  rw [endPass, endPass, known, found]
  split
  · rfl
  · rfl

theorem undivided_pass (search : Search) :
    (search.pass policy symbols clock).undivided = search.undivided.pass policy.unfiltered symbols clock := by
  have scanned := undivided_scan policy symbols clock (pairs search.snapshot) search.beginPass
  have start : search.undivided.beginPass = search.beginPass.undivided := rfl
  have snapshot : search.undivided.snapshot = search.snapshot := rfl
  rw [pass_eq, pass_eq, snapshot, start, ← scanned]
  cases search.beginPass.scan policy symbols clock (pairs search.snapshot) with
  | running between => exact between.undivided_endPass
  | finished outcome => rfl

theorem undivided_runFor (n : Nat) (search : Search) :
    (search.runFor policy symbols clock n).undivided = search.undivided.runFor policy.unfiltered symbols clock n := by
  induction n generalizing search with
  | zero => rfl
  | succ n ih =>
      rw [runFor_succ, runFor_succ, ← undivided_pass]
      cases search.pass policy symbols clock with
      | running between => exact ih between
      | finished outcome => rfl

/-- A search forgets the division of looks as a search that skips no pair. -/
theorem undivided_saturateFor (n : Nat) (search : Search) :
    (search.saturateFor policy symbols clock n).undivided =
      search.undivided.saturateFor policy.unfiltered symbols clock n := by
  have known : search.undivided.known = search.known := rfl
  rw [saturateFor_eq, saturateFor_eq, known]
  split
  · rfl
  · exact undivided_runFor policy symbols clock n search

end Search

theorem Status.verdict?_undivided (status : Status) : status.undivided.verdict? = status.verdict? := by
  cases status <;> rfl

theorem Status.search_undivided (status : Status) : status.undivided.search = status.search.undivided := by
  cases status <;> rfl

namespace Search

/-- Whether or not pairs that cannot resolve are skipped, a search without a deadline has after every number of passes
the same verdict, if any, knows the same clauses, has issued the same variables, and has counted the same, but for the
looks, which are as many in all. A pair that would be skipped has no resolvent and takes no variable. -/
theorem filter_invisible (policy : Policy) (symbols : Symbols) (search : Search) (n : Nat) :
    let filtered := search.saturateFor { policy with skips := true } symbols .never n
    let all := search.saturateFor { policy with skips := false } symbols .never n
    filtered.verdict? = all.verdict? ∧
    filtered.search.known = all.search.known ∧
    filtered.search.supply.issued = all.search.supply.issued ∧
    filtered.search.sizes = all.search.sizes ∧
    filtered.search.tally.passes = all.search.tally.passes ∧
    filtered.search.tally.resolvents = all.search.tally.resolvents ∧
    filtered.search.tally.retained = all.search.tally.retained ∧
    filtered.search.tally.examined + filtered.search.tally.skipped =
      all.search.tally.examined + all.search.tally.skipped ∧
    ∀ (c d : Clause) (supply : Supply), c.complementary d = false → c.resolve symbols d supply = ([], supply) := by
  intro filtered all
  have same : filtered.undivided = all.undivided :=
    (undivided_saturateFor { policy with skips := true } symbols .never n search).trans
      (undivided_saturateFor { policy with skips := false } symbols .never n search).symm
  have verdicts : filtered.verdict? = all.verdict? := by
    rw [← Status.verdict?_undivided, same, Status.verdict?_undivided]
  have states : filtered.search.undivided = all.search.undivided := by
    rw [← Status.search_undivided, same, Status.search_undivided]
  simp only [undivided, Search.mk.injEq, Tally.mk.injEq] at states
  obtain ⟨known, -, supply, ⟨-, passes, looks, -, resolvents, retained⟩, sizes⟩ := states
  exact ⟨verdicts, known, congrArg Supply.issued supply, sizes, passes, resolvents, retained, looks,
    fun c d supply => Clause.resolve_of_not_complementary symbols supply⟩

/-- `P(x₀)` and `~Q(x₀)` are skipped or resolved with the same effect: the search that knows the two has after one pass
as many looks, and no variable is taken for a resolvent. -/
theorem filter_invisible_units :
    let symbols : Symbols := ⟨#["P", "Q"], by decide⟩
    let p := Clause.ofLiterals symbols [⟨true, 0, [.var 0]⟩]
    let q := Clause.ofLiterals symbols [⟨false, 1, [.var 0]⟩]
    let filtered := (start (.ofList [p, q]) ⟨1⟩).saturateFor .standard symbols .never 1
    let all := (start (.ofList [p, q]) ⟨1⟩).saturateFor Policy.standard.unfiltered symbols .never 1
    p.complementary q = false ∧ p.resolve symbols q ⟨1⟩ = ([], ⟨1⟩) ∧ filtered.verdict? = all.verdict? ∧
      filtered.search.looks = all.search.looks := by
  intro symbols p q filtered all
  have skipped : p.complementary q = false := by
    simp only [p, q, Clause.complementary, Clause.literals_ofLiterals_singleton]
    decide
  obtain ⟨verdicts, -, -, -, -, -, -, looks, nothing⟩ := filter_invisible .standard symbols
    (start (.ofList [p, q]) ⟨1⟩) 1
  exact ⟨skipped, nothing p q ⟨1⟩ skipped, verdicts, looks⟩

end Search

end Refutation
