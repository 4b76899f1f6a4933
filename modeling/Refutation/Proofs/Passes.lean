import Refutation.Entailment
import Refutation.Proofs.Resolvents

/-!
What a search does, pass by pass. A look at a pair records its resolvents, whether or not pairs that
cannot resolve are skipped; a pass looks at every two clauses that were known when it began; what was
found is known from then on. A search that made some passes says the same when it is given more, and
the clock can only end it early.
-/

namespace Refutation

namespace ClauseSet

variable {known : ClauseSet} {c : Clause} {cs : List Clause}

theorem mem_of_mem_insert {d : Clause} (member : d ∈ (known.insert c).toList) :
    d ∈ known.toList ∨ d = c := by
  rw [toList_insert] at member
  split at member
  · exact .inl member
  · simpa using member

theorem subset_insert (known : ClauseSet) (c : Clause) : known.toList ⊆ (known.insert c).toList := by
  intro d member
  rw [toList_insert]
  split
  · exact member
  · exact List.mem_append_left _ member

theorem exists_same_insert (known : ClauseSet) (c : Clause) : ∃ d ∈ (known.insert c).toList, d.Same c := by
  rw [toList_insert]
  split
  · next met => exact (known.contains_eq_true_iff c).mp met
  · exact ⟨c, by simp, rfl⟩

theorem mem_of_mem_insertAll {d : Clause} (member : d ∈ (known.insertAll cs).toList) :
    d ∈ known.toList ∨ d ∈ cs := by
  induction cs generalizing known with
  | nil => exact .inl member
  | cons c cs ih =>
      rcases ih member with old | later
      · rcases mem_of_mem_insert old with older | rfl
        · exact .inl older
        · exact .inr List.mem_cons_self
      · exact .inr (List.mem_cons_of_mem c later)

theorem subset_insertAll (known : ClauseSet) (cs : List Clause) :
    known.toList ⊆ (known.insertAll cs).toList := by
  induction cs generalizing known with
  | nil => exact List.Subset.refl _
  | cons c cs ih => exact List.Subset.trans (known.subset_insert c) (ih (known.insert c))

theorem exists_same_insertAll (known : ClauseSet) (member : c ∈ cs) :
    ∃ d ∈ (known.insertAll cs).toList, d.Same c := by
  induction cs generalizing known with
  | nil => exact absurd member List.not_mem_nil
  | cons b cs ih =>
      rcases List.mem_cons.mp member with rfl | later
      · obtain ⟨d, inside, same⟩ := known.exists_same_insert c
        exact ⟨d, subset_insertAll _ cs inside, same⟩
      · exact ih (known.insert b) later

theorem toList_insertAll_of_distinct {known : ClauseSet} {cs : List Clause}
    (distinct : (known.toList ++ cs).Pairwise fun c d => ¬ c.Same d) :
    (known.insertAll cs).toList = known.toList ++ cs := by
  induction cs generalizing known with
  | nil => exact (List.append_nil _).symm
  | cons c cs ih =>
      have new : ¬ known.contains c = true := by
        intro met
        obtain ⟨d, member, same⟩ := (known.contains_eq_true_iff c).mp met
        exact (List.pairwise_append.mp distinct).2.2 d member c List.mem_cons_self same
      have first : (known.insert c).toList = known.toList ++ [c] := by rw [toList_insert, if_neg new]
      have split : (known.insert c).toList ++ cs = known.toList ++ c :: cs := by
        rw [first, List.append_assoc]
        rfl
      calc
        ((known.insert c).insertAll cs).toList = (known.insert c).toList ++ cs :=
          ih (by rw [split]; exact distinct)
        _ = known.toList ++ c :: cs := split

end ClauseSet

/-- Of two different clauses of a list one is paired with the other. -/
theorem mem_pairs {cs : List Clause} {c d : Clause} (left : c ∈ cs) (right : d ∈ cs) (differ : c ≠ d) :
    (c, d) ∈ pairs cs ∨ (d, c) ∈ pairs cs := by
  induction cs with
  | nil => exact absurd left List.not_mem_nil
  | cons b cs ih =>
      simp only [pairs, List.mem_append, List.mem_map, Prod.mk.injEq]
      rcases List.mem_cons.mp left with rfl | laterC
      · rcases List.mem_cons.mp right with rfl | laterD
        · exact absurd rfl differ
        · exact .inl (.inl ⟨d, laterD, rfl, rfl⟩)
      · rcases List.mem_cons.mp right with rfl | laterD
        · exact .inr (.inl ⟨c, laterC, rfl, rfl⟩)
        · exact (ih laterC laterD).imp .inr .inr

theorem of_mem_pairs {cs : List Clause} {c d : Clause} (member : (c, d) ∈ pairs cs) : c ∈ cs ∧ d ∈ cs := by
  induction cs with
  | nil => exact absurd member List.not_mem_nil
  | cons b cs ih =>
      simp only [pairs, List.mem_append, List.mem_map, Prod.mk.injEq] at member
      rcases member with ⟨e, inside, rfl, rfl⟩ | later
      · exact ⟨List.mem_cons_self, List.mem_cons_of_mem _ inside⟩
      · exact ⟨List.mem_cons_of_mem b (ih later).1, List.mem_cons_of_mem b (ih later).2⟩

theorem rel_of_mem_pairs {R : Clause → Clause → Prop} {cs : List Clause} {c d : Clause} (related : cs.Pairwise R)
    (member : (c, d) ∈ pairs cs) : R c d := by
  induction cs with
  | nil => exact absurd member List.not_mem_nil
  | cons b cs ih =>
      obtain ⟨head, tail⟩ := List.pairwise_cons.mp related
      simp only [pairs, List.mem_append, List.mem_map, Prod.mk.injEq] at member
      rcases member with ⟨e, inside, rfl, rfl⟩ | later
      · exact head e inside
      · exact ih tail later

/-- Clauses that the filter skips have no resolvent. -/
theorem Clause.resolve_of_not_complementary (symbols : Symbols) {c d : Clause} (supply : Supply)
    (skipped : c.complementary d = false) : c.resolve symbols d supply = ([], supply) := by
  have none : (c.clashes d).filterMap (Clash.resolvent? symbols) = [] := by
    rw [List.filterMap_eq_nil_iff]
    intro clash inside
    obtain ⟨left, right, differ⟩ := mem_clashes_iff.mp inside
    have predicates : clash.left.predicate ≠ clash.right.predicate := by
      intro same
      have meets : c.complementary d = true := by
        rw [complementary, List.any_eq_true]
        refine ⟨clash.left, (perm_of_mem_picks left).subset List.mem_cons_self, ?_⟩
        rw [List.any_eq_true]
        exact ⟨clash.right, (perm_of_mem_picks right).subset List.mem_cons_self, by simp [differ, same]⟩
      rw [skipped] at meets
      exact absurd meets (by decide)
    rw [Clash.resolvent?, if_neg predicates]
  rw [resolve, none]
  rfl

namespace Search

variable {policy : Policy} {symbols : Symbols} {clock : Clock}

theorem lookAt_eq_running {c d : Clause} {before after : Search}
    (look : before.lookAt policy symbols c d = .running after) :
    ∃ resolvents : List Clause, resolvents.Perm (c.resolve symbols d before.supply).1 ∧
      (∀ r ∈ resolvents, r.isEmpty = false) ∧ after.known = before.known ∧
      after.found = before.found.insertAll resolvents ∧
      after.supply = (c.resolve symbols d before.supply).2 := by
  unfold lookAt at look
  split at look
  · next skips =>
      rw [Bool.and_eq_true, Bool.not_eq_true'] at skips
      cases look
      rw [Clause.resolve_of_not_complementary symbols before.supply skips.2]
      exact ⟨[], .refl _, by simp, rfl, rfl, rfl⟩
  · simp only at look
    split at look
    · cases look
    · next none =>
        cases look
        refine ⟨_, policy.enumerate_perm _ _, fun r member => ?_, rfl, rfl, rfl⟩
        rw [List.any_eq_true, not_exists] at none
        exact Bool.eq_false_iff.mpr fun empty => none r ⟨member, empty⟩

theorem lookAt_eq_finished {c d : Clause} {before : Search} {outcome : Outcome}
    (look : before.lookAt policy symbols c d = .finished outcome) :
    outcome.verdict = .refuted ∧ ∃ r ∈ (c.resolve symbols d before.supply).1, r.isEmpty = true := by
  unfold lookAt at look
  split at look
  · cases look
  · simp only at look
    split at look
    · next some =>
        cases look
        obtain ⟨r, member, empty⟩ := List.any_eq_true.mp some
        exact ⟨rfl, r, (policy.enumerate_perm _ _).subset member, empty⟩
    · cases look

/-- The states between which a list of pairs was looked at without an end to the search. -/
inductive Scanned (policy : Policy) (symbols : Symbols) : List (Clause × Clause) → Search → Search → Prop
  | nil {search : Search} : Scanned policy symbols [] search search
  | cons {c d : Clause} {rest : List (Clause × Clause)} {before between after : Search} :
      before.lookAt policy symbols c d = .running between →
      Scanned policy symbols rest between after → Scanned policy symbols ((c, d) :: rest) before after

theorem scanned_of_running {todo : List (Clause × Clause)} {before after : Search}
    (scanned : before.scan policy symbols clock todo = .running after) :
    Scanned policy symbols todo before after := by
  induction todo generalizing before with
  | nil =>
      cases scanned
      exact .nil
  | cons pair rest ih =>
      obtain ⟨c, d⟩ := pair
      rw [scan_cons] at scanned
      split at scanned
      · cases scanned
      · split at scanned
        · cases scanned
        · next between look => exact .cons look (ih scanned)

/-- A scan ends the search at the pair where time was up or where the empty clause came out. -/
theorem scanned_of_finished {todo : List (Clause × Clause)} {before : Search} {outcome : Outcome}
    (scanned : before.scan policy symbols clock todo = .finished outcome) :
    ∃ done c d rest between, todo = done ++ (c, d) :: rest ∧ Scanned policy symbols done before between ∧
      (clock between.looks = true ∧ outcome.verdict = .timedOut ∨
        between.lookAt policy symbols c d = .finished outcome) := by
  induction todo generalizing before with
  | nil => cases scanned
  | cons pair rest ih =>
      obtain ⟨c, d⟩ := pair
      rw [scan_cons] at scanned
      split at scanned
      · next up =>
          cases scanned
          exact ⟨[], c, d, rest, before, rfl, .nil, .inl ⟨up, rfl⟩⟩
      · split at scanned
        · next look =>
            cases scanned
            exact ⟨[], c, d, rest, before, rfl, .nil, .inr look⟩
        · next between look =>
            obtain ⟨done, e, f, later, last, rfl, path, ends⟩ := ih scanned
            exact ⟨(c, d) :: done, e, f, later, last, rfl, .cons look path, ends⟩

namespace Scanned

variable {todo : List (Clause × Clause)} {before after : Search}

/-- What every look keeps is kept by all. -/
theorem keeps {P : Search → Prop} (scanned : Scanned policy symbols todo before after)
    (look : ∀ c d, (c, d) ∈ todo → ∀ s t, P s → s.lookAt policy symbols c d = .running t → P t)
    (holds : P before) : P after := by
  induction scanned with
  | nil => exact holds
  | cons first _ ih =>
      apply ih
      · exact fun c d member => look c d (List.mem_cons_of_mem _ member)
      · exact look _ _ List.mem_cons_self _ _ holds first

theorem known_eq (scanned : Scanned policy symbols todo before after) : after.known = before.known := by
  induction scanned with
  | nil => rfl
  | cons look _ ih =>
      obtain ⟨-, -, -, known, -, -⟩ := lookAt_eq_running look
      rw [ih, known]

theorem found_subset (scanned : Scanned policy symbols todo before after) :
    before.found.toList ⊆ after.found.toList := by
  induction scanned with
  | nil => exact List.Subset.refl _
  | cons look _ ih =>
      obtain ⟨resolvents, -, -, -, found, -⟩ := lookAt_eq_running look
      rw [found] at ih
      exact List.Subset.trans (ClauseSet.subset_insertAll _ resolvents) ih

/-- All resolvents of a pair that was looked at are recorded. -/
theorem covers (scanned : Scanned policy symbols todo before after) {c d : Clause} (member : (c, d) ∈ todo) :
    Covers symbols {r | r ∈ after.found.toList} c d := by
  induction scanned with
  | nil => exact absurd member List.not_mem_nil
  | cons look later ih =>
      rcases List.mem_cons.mp member with here | next
      · cases here
        intro clash inside bare found
        obtain ⟨resolvents, perm, -, -, recorded, -⟩ := lookAt_eq_running look
        obtain ⟨r, listed, same⟩ := Clause.exists_mem_resolve inside found _
        obtain ⟨s, kept, equal⟩ := ClauseSet.exists_same_insertAll _ (perm.mem_iff.mpr listed)
        rw [← recorded] at kept
        exact ⟨s, later.found_subset kept, equal.trans same⟩
      · exact ih next

theorem nonempty_resolve (scanned : Scanned policy symbols todo before after) {c d : Clause}
    (member : (c, d) ∈ todo) :
    ∃ supply, ∀ r ∈ (c.resolve symbols d supply).1, r.isEmpty = false := by
  induction scanned with
  | nil => exact absurd member List.not_mem_nil
  | cons look _ ih =>
      rcases List.mem_cons.mp member with here | next
      · cases here
        obtain ⟨resolvents, perm, nonempty, -⟩ := lookAt_eq_running look
        exact ⟨_, fun r listed => nonempty r (perm.mem_iff.mpr listed)⟩
      · exact ih next

end Scanned

theorem mem_snapshot {search : Search} {c : Clause} : c ∈ search.snapshot ↔ c ∈ search.known.toList :=
  List.mem_mergeSort

theorem pass_eq_running {before after : Search} (made : before.pass policy symbols clock = .running after) :
    ∃ scanned, Scanned policy symbols (pairs before.snapshot) before.beginPass scanned ∧
      after.known = scanned.known.insertAll scanned.found.toList ∧ after.found = scanned.found ∧
      after.supply = scanned.supply := by
  rw [pass_eq] at made
  split at made
  · cases made
  · next scanned running =>
      unfold endPass at made
      split at made
      · cases made
      · cases made
        exact ⟨scanned, scanned_of_running running, rfl, rfl, rfl⟩

/-- A pass ends the search at some pair, or after all of them if nothing new was found. -/
theorem pass_eq_finished {before : Search} {outcome : Outcome}
    (made : before.pass policy symbols clock = .finished outcome) :
    (∃ done c d rest between, pairs before.snapshot = done ++ (c, d) :: rest ∧
      Scanned policy symbols done before.beginPass between ∧
      (clock between.looks = true ∧ outcome.verdict = .timedOut ∨
        between.lookAt policy symbols c d = .finished outcome)) ∨
    outcome.verdict = .saturated ∧
      ∃ scanned, Scanned policy symbols (pairs before.snapshot) before.beginPass scanned ∧
        ∀ c ∈ scanned.found.toList, scanned.known.contains c = true := by
  rw [pass_eq] at made
  split at made
  · next finished =>
      cases made
      exact .inl (scanned_of_finished finished)
  · next scanned running =>
      unfold endPass at made
      split at made
      · next nothing =>
          cases made
          exact .inr ⟨rfl, scanned, scanned_of_running running, List.all_eq_true.mp nothing⟩
      · cases made

theorem Scanned.covers_pairs {before after : Search} {clauses : Set Clause}
    (scanned : Scanned policy symbols (pairs before.snapshot) before.beginPass after)
    (kept : ∀ r ∈ after.found.toList, ∃ s ∈ clauses, s.Same r) {c d : Clause}
    (left : c ∈ before.known.toList) (right : d ∈ before.known.toList) (differ : c ≠ d) :
    Covers symbols clauses c d ∨ Covers symbols clauses d c := by
  have covers : ∀ e f, (e, f) ∈ pairs before.snapshot → Covers symbols clauses e f := by
    intro e f member clash inside bare found
    obtain ⟨r, recorded, same⟩ := scanned.covers member clash inside bare found
    obtain ⟨s, listed, equal⟩ := kept r recorded
    exact ⟨s, listed, equal.trans same⟩
  exact (mem_pairs (mem_snapshot.mpr left) (mem_snapshot.mpr right) differ).imp (covers c d) (covers d c)

theorem covers_of_pass_running {before after : Search}
    (made : before.pass policy symbols clock = .running after) {c d : Clause}
    (left : c ∈ before.known.toList) (right : d ∈ before.known.toList) (differ : c ≠ d) :
    Covers symbols {r | r ∈ after.known.toList} c d ∨ Covers symbols {r | r ∈ after.known.toList} d c := by
  obtain ⟨scanned, path, known, -, -⟩ := pass_eq_running made
  refine path.covers_pairs (fun r recorded => ?_) left right differ
  rw [known]
  exact scanned.known.exists_same_insertAll recorded

theorem covers_of_pass_saturated {before : Search} {outcome : Outcome}
    (made : before.pass policy symbols clock = .finished outcome) (saturated : outcome.verdict = .saturated)
    {c d : Clause} (left : c ∈ before.known.toList) (right : d ∈ before.known.toList) (differ : c ≠ d) :
    Covers symbols {r | r ∈ before.known.toList} c d ∨ Covers symbols {r | r ∈ before.known.toList} d c := by
  rcases pass_eq_finished made with ⟨_, _, _, _, _, -, -, late | look⟩ | ⟨-, scanned, path, nothing⟩
  · rw [late.2] at saturated
    cases saturated
  · rw [(lookAt_eq_finished look).1] at saturated
    cases saturated
  · refine path.covers_pairs (fun r recorded => ?_) left right differ
    have known : scanned.known = before.known := path.known_eq
    rw [← known]
    exact (scanned.known.contains_eq_true_iff r).mp (nothing r recorded)

theorem known_subset_of_pass {before after : Search}
    (made : before.pass policy symbols clock = .running after) : before.known.toList ⊆ after.known.toList := by
  obtain ⟨scanned, path, known, -, -⟩ := pass_eq_running made
  have start : scanned.known = before.known := path.known_eq
  rw [known, start]
  exact ClauseSet.subset_insertAll _ _

/-- Without a deadline no pass times out. -/
theorem verdict_ne_timedOut {before : Search} {outcome : Outcome}
    (made : before.pass policy symbols .never = .finished outcome) : outcome.verdict ≠ .timedOut := by
  rcases pass_eq_finished made with ⟨_, _, _, _, _, -, -, late | look⟩ | ⟨saturated, -⟩
  · exact absurd late.1 Bool.false_ne_true
  · rw [(lookAt_eq_finished look).1]
    decide
  · rw [saturated]
    decide

section Passes

variable {n k : Nat} {before after : Search} {outcome : Outcome}

/-- Passes that were made need not be made again. -/
theorem runFor_add_of_running (k : Nat) (made : before.runFor policy symbols clock n = .running after) :
    before.runFor policy symbols clock (n + k) = after.runFor policy symbols clock k := by
  induction n generalizing before with
  | zero =>
      cases made
      rw [Nat.zero_add]
  | succ n ih =>
      rw [runFor_succ] at made
      split at made
      · cases made
      · next first =>
          rw [Nat.add_right_comm, runFor_succ, first]
          exact ih made

theorem runFor_succ_of_running (made : before.runFor policy symbols clock n = .running after) :
    before.runFor policy symbols clock (n + 1) = after.pass policy symbols clock := by
  rw [runFor_add_of_running 1 made, runFor_succ]
  split
  · next last => rw [last]
  · next last => rw [last, runFor_zero]

/-- A search that is over stays over. -/
theorem runFor_of_finished (made : before.runFor policy symbols clock n = .finished outcome) (more : n ≤ k) :
    before.runFor policy symbols clock k = .finished outcome := by
  induction n generalizing before k with
  | zero => cases made
  | succ n ih =>
      obtain ⟨k, rfl⟩ : ∃ j, k = j + 1 := ⟨k - 1, by omega⟩
      rw [runFor_succ] at made ⊢
      split at made
      · exact made
      · exact ih made (by omega)

theorem exists_pass_of_finished (made : before.runFor policy symbols clock n = .finished outcome) :
    ∃ k last, before.runFor policy symbols clock k = .running last ∧
      last.pass policy symbols clock = .finished outcome := by
  induction n generalizing before with
  | zero => cases made
  | succ n ih =>
      rw [runFor_succ] at made
      split at made
      · next first =>
          cases made
          exact ⟨0, before, rfl, first⟩
      · next between first =>
          obtain ⟨k, last, run, final⟩ := ih made
          refine ⟨k + 1, last, ?_, final⟩
          rw [runFor_succ, first]
          exact run

/-- What every pass keeps is kept by all. -/
theorem runFor_keeps {P : Search → Prop} (pass : ∀ s t, P s → s.pass policy symbols clock = .running t → P t)
    (made : before.runFor policy symbols clock n = .running after) (holds : P before) : P after := by
  induction n generalizing before with
  | zero =>
      cases made
      exact holds
  | succ n ih =>
      rw [runFor_succ] at made
      split at made
      · cases made
      · next first => exact ih made (pass _ _ holds first)

theorem known_subset_of_runFor (made : before.runFor policy symbols clock n = .running after) :
    before.known.toList ⊆ after.known.toList := by
  apply runFor_keeps (P := fun s => before.known.toList ⊆ s.known.toList) _ made (List.Subset.refl _)
  intro s t sub pass
  exact List.Subset.trans sub (known_subset_of_pass pass)

end Passes

/-- The clauses of a search, known or found in the pass that is on. -/
def clauses (search : Search) : List Clause := search.known.toList ++ search.found.toList

section Invariants

variable {before after : Search} {outcome : Outcome}

theorem mem_clauses_of_lookAt {c d r : Clause} (look : before.lookAt policy symbols c d = .running after)
    (member : r ∈ after.clauses) :
    r ∈ before.clauses ∨ r ∈ (c.resolve symbols d before.supply).1 ∧ r.isEmpty = false := by
  obtain ⟨resolvents, perm, nonempty, known, found, -⟩ := lookAt_eq_running look
  rw [clauses, known, found] at member
  rcases List.mem_append.mp member with old | recorded
  · exact .inl (List.mem_append_left _ old)
  · rcases ClauseSet.mem_of_mem_insertAll recorded with old | new
    · exact .inl (List.mem_append_right _ old)
    · exact .inr ⟨perm.subset new, nonempty r new⟩

theorem clauses_beginPass (search : Search) : search.beginPass.clauses ⊆ search.clauses := by
  intro c member
  exact List.mem_append_left _ ((List.mem_append.mp member).resolve_right List.not_mem_nil)

theorem clauses_of_merged (known : after.known = before.known.insertAll before.found.toList)
    (found : after.found = before.found) : after.clauses ⊆ before.clauses := by
  intro c member
  rw [clauses, known, found] at member
  rcases List.mem_append.mp member with merged | recorded
  · exact List.mem_append.mpr (ClauseSet.mem_of_mem_insertAll merged)
  · exact List.mem_append_right _ recorded

/-- What every look at two clauses keeps, and what does not need any clause, is kept by a pass. -/
theorem pass_keeps {P : Search → Prop}
    (fewer : ∀ s t : Search, t.clauses ⊆ s.clauses → t.supply = s.supply → P s → P t)
    (looked : ∀ s t c d, c ∈ s.clauses → d ∈ s.clauses → s.lookAt policy symbols c d = .running t → P s → P t)
    (holds : P before) (made : before.pass policy symbols clock = .running after) : P after := by
  obtain ⟨scanned, path, known, found, supply⟩ := pass_eq_running made
  have kept : scanned.known = before.known ∧ P scanned := by
    refine path.keeps (P := fun s => s.known = before.known ∧ P s) (fun c d member s t state look => ?_)
      ⟨rfl, fewer before before.beginPass before.clauses_beginPass rfl holds⟩
    have inside : ∀ e, e ∈ before.snapshot → e ∈ s.clauses := by
      intro e listed
      rw [clauses, state.1]
      exact List.mem_append_left _ (mem_snapshot.mp listed)
    obtain ⟨-, -, -, same, -⟩ := lookAt_eq_running look
    obtain ⟨left, right⟩ := of_mem_pairs member
    exact ⟨same.trans state.1, looked s t c d (inside c left) (inside d right) look state.2⟩
  exact fewer scanned after (clauses_of_merged known found) supply kept.2

/-- While a search goes on no clause in it is empty. -/
theorem nonempty_of_pass (all : ∀ c ∈ before.clauses, c.isEmpty = false)
    (made : before.pass policy symbols clock = .running after) : ∀ c ∈ after.clauses, c.isEmpty = false := by
  refine pass_keeps (P := fun s => ∀ c ∈ s.clauses, c.isEmpty = false) ?_ ?_ all made
  · intro s t sub _ every c member
    exact every c (sub member)
  · intro s t _ _ _ _ look every r member
    exact (mem_clauses_of_lookAt look member).elim (every r) And.right

section Inheritance

variable {Q : Clause → Prop}
variable (inherited : ∀ c d supply, Q c → Q d → ∀ r ∈ (c.resolve symbols d supply).1, Q r)
include inherited

theorem inherited_of_pass (all : ∀ c ∈ before.clauses, Q c)
    (made : before.pass policy symbols clock = .running after) : ∀ c ∈ after.clauses, Q c := by
  refine pass_keeps (P := fun s => ∀ c ∈ s.clauses, Q c) ?_ ?_ all made
  · intro s t sub _ every c member
    exact every c (sub member)
  · intro s t c d left right look every r member
    rcases mem_clauses_of_lookAt look member with old | new
    · exact every r old
    · exact inherited c d s.supply (every c left) (every d right) r new.1

theorem exists_empty_of_pass (all : ∀ c ∈ before.clauses, Q c)
    (made : before.pass policy symbols clock = .finished outcome) (refuted : outcome.verdict = .refuted) :
    ∃ r, r.isEmpty = true ∧ Q r := by
  have known : ∀ c ∈ before.snapshot, Q c := fun c listed =>
    all c (List.mem_append_left _ (mem_snapshot.mp listed))
  rcases pass_eq_finished made with ⟨done, c, d, rest, between, split, -, late | look⟩ | ⟨saturated, -⟩
  · rw [late.2] at refuted
    cases refuted
  · obtain ⟨-, r, member, empty⟩ := lookAt_eq_finished look
    have parents : (c, d) ∈ pairs before.snapshot := by simp [split]
    obtain ⟨left, right⟩ := of_mem_pairs parents
    exact ⟨r, empty, inherited c d between.supply (known c left) (known d right) r member⟩
  · rw [saturated] at refuted
    cases refuted

/-- A property of the clauses that resolution hands down is one of the empty clause if it is found. -/
theorem exists_empty_of_refuted {passes : Nat} (all : ∀ c ∈ before.clauses, Q c)
    (made : before.saturateFor policy symbols clock passes = .finished outcome)
    (refuted : outcome.verdict = .refuted) : ∃ r, r.isEmpty = true ∧ Q r := by
  rw [saturateFor_eq] at made
  split at made
  · next known =>
      obtain ⟨r, member, empty⟩ := List.any_eq_true.mp known
      exact ⟨r, empty, all r (List.mem_append_left _ member)⟩
  · obtain ⟨k, last, run, final⟩ := exists_pass_of_finished made
    have every := runFor_keeps (fun s t => inherited_of_pass inherited) run all
    exact exists_empty_of_pass inherited every final refuted

end Inheritance

end Invariants

/-- A pass over a pair that has the empty resolvent ends the search. -/
theorem exists_pass_refuted (policy : Policy) {before : Search} {c d : Clause}
    (member : (c, d) ∈ pairs before.snapshot)
    (empty : ∀ supply, ∃ r ∈ (c.resolve symbols d supply).1, r.isEmpty = true) :
    ∃ outcome, before.pass policy symbols .never = .finished outcome ∧ outcome.verdict = .refuted := by
  have stops : ∀ after, ¬ Scanned policy symbols (pairs before.snapshot) before.beginPass after := by
    intro after scanned
    obtain ⟨supply, nonempty⟩ := scanned.nonempty_resolve member
    obtain ⟨r, listed, isEmpty⟩ := empty supply
    rw [nonempty r listed] at isEmpty
    cases isEmpty
  cases made : before.pass policy symbols .never with
  | running after =>
      obtain ⟨scanned, path, -⟩ := pass_eq_running made
      exact absurd path (stops scanned)
  | finished outcome =>
      refine ⟨outcome, rfl, ?_⟩
      rcases pass_eq_finished made with ⟨_, _, _, _, _, -, -, late | look⟩ | ⟨-, scanned, path, -⟩
      · exact absurd late.1 Bool.false_ne_true
      · exact (lookAt_eq_finished look).1
      · exact absurd path (stops scanned)

theorem saturateFor_of_pass {n : Nat} {search : Search} {outcome : Outcome}
    (nonempty : ∀ c ∈ search.known.toList, c.isEmpty = false)
    (made : search.pass policy symbols clock = .finished outcome) :
    search.saturateFor policy symbols clock (n + 1) = .finished outcome := by
  rw [saturateFor_eq, if_neg, runFor_succ, made]
  rw [List.any_eq_true]
  rintro ⟨c, member, empty⟩
  rw [nonempty c member] at empty
  cases empty

section Clocks

variable {before : Search} {status : Status}

theorem never_ne_true (looks : Nat) : ¬ Clock.never looks = true := Bool.false_ne_true

theorem scan_never {todo : List (Clause × Clause)} (made : before.scan policy symbols clock todo = status)
    (inTime : ∀ outcome, status = .finished outcome → outcome.verdict ≠ .timedOut) :
    before.scan policy symbols .never todo = status := by
  induction todo generalizing before with
  | nil => exact made
  | cons pair rest ih =>
      obtain ⟨c, d⟩ := pair
      rw [scan_cons] at made ⊢
      rw [if_neg (never_ne_true before.looks)]
      split at made
      · exact absurd rfl (inTime _ made.symm)
      · split at made
        · exact made
        · exact ih made

theorem pass_never (made : before.pass policy symbols clock = status)
    (inTime : ∀ outcome, status = .finished outcome → outcome.verdict ≠ .timedOut) :
    before.pass policy symbols .never = status := by
  rw [pass_eq] at made ⊢
  split at made
  · next ended =>
      rw [scan_never ended (by rwa [made])]
      exact made
  · next scanned =>
      rw [scan_never scanned (by intro _ ended; cases ended)]
      exact made

/-- A search that the clock did not end goes as without a deadline. -/
theorem runFor_never {n : Nat} (made : before.runFor policy symbols clock n = status)
    (inTime : ∀ outcome, status = .finished outcome → outcome.verdict ≠ .timedOut) :
    before.runFor policy symbols .never n = status := by
  induction n generalizing before with
  | zero => exact made
  | succ n ih =>
      rw [runFor_succ] at made ⊢
      split at made
      · next ended =>
          rw [pass_never ended (by rwa [made])]
          exact made
      · next passed =>
          rw [pass_never passed (by intro _ ended; cases ended)]
          exact ih made

end Clocks

end Search

namespace Problem

theorem mem_search {p : Problem} {query : Literal} {c : Clause} (member : c ∈ (p.search query).clauses) :
    c ∈ (p.refutationClauses query).1 := by
  have known := (List.mem_append.mp member).resolve_right List.not_mem_nil
  exact (ClauseSet.mem_of_mem_insertAll known).resolve_left List.not_mem_nil

theorem toList_search {p : Problem} {query : Literal}
    (distinct : (p.refutationClauses query).1.Pairwise fun c d => ¬ c.Same d) :
    (p.search query).known.toList = (p.refutationClauses query).1 :=
  ClauseSet.toList_insertAll_of_distinct distinct

/-- The negated query and every clause of the problem are known from the beginning. -/
theorem exists_same_search {p : Problem} {query : Literal} {c : Clause}
    (listed : c ∈ Clause.ofLiterals p.symbols [query.negate] :: p.clauses) :
    ∃ d ∈ (p.search query).known.toList, d.Same c := by
  obtain ⟨before, renamed⟩ := Clause.exists_mem_renameAll listed ⟨0⟩
  obtain ⟨d, known, same⟩ := ClauseSet.exists_same_insertAll .empty renamed
  exact ⟨d, known, same⟩

section Answers

variable {p : Problem} {policy : Policy} {clock : Clock} {query : Literal} {outcome : Outcome} {n k : Nat}

theorem proveFor_eq : p.proveFor policy clock n query =
    if (p.search query).known.toList.any Clause.isEmpty then .finished ⟨.refuted, p.search query⟩
    else (p.search query).runFor policy p.symbols clock n := Search.saturateFor_eq

theorem proveFor_of_finished (made : p.proveFor policy clock n query = .finished outcome) (more : n ≤ k) :
    p.proveFor policy clock k query = .finished outcome := by
  rw [proveFor_eq] at made ⊢
  split at made
  · next empty =>
      rw [if_pos empty]
      exact made
  · next nonempty =>
      rw [if_neg nonempty]
      exact Search.runFor_of_finished made more

theorem proveFor_never (made : p.proveFor policy clock n query = .finished outcome)
    (inTime : outcome.verdict ≠ .timedOut) : p.proveFor policy .never n query = .finished outcome := by
  rw [proveFor_eq] at made ⊢
  split at made
  · next empty =>
      rw [if_pos empty]
      exact made
  · next nonempty =>
      rw [if_neg nonempty]
      refine Search.runFor_never made fun other same => ?_
      cases same
      exact inTime

/-- However many passes are allowed, a search that ends ends in one way. -/
theorem proveFor_unique {other : Outcome} (made : p.proveFor policy clock n query = .finished outcome)
    (again : p.proveFor policy clock k query = .finished other) : outcome = other := by
  have left := proveFor_of_finished made (Nat.le_max_left n k)
  have right := proveFor_of_finished again (Nat.le_max_right n k)
  rw [left] at right
  exact Status.finished.inj right

end Answers

end Problem

end Refutation
