import Refutation.Proofs.Derivation
import Refutation.Proofs.Progress
import Refutation.Proofs.Soundness

/-!
A search realizes the closure under resolution level by level. After so many passes it knows, up to the
names of variables, exactly what can be derived with at most that depth. So it refutes the query in the
pass whose number is the least depth of the empty set, and it is saturated exactly if all that can be
derived is finitely many sets and the empty one is not among them.
-/

namespace Refutation

/-- Whether a variant of a set can be derived with at most some depth. -/
def WithinDepth (given : Set LiteralSet) (k : Nat) (C : LiteralSet) : Prop :=
  ∃ n ≤ k, ∃ D, Derived given n D ∧ D.Variant C

namespace WithinDepth

variable {given : Set LiteralSet} {k : Nat} {C D R : LiteralSet}

theorem of_variant (within : WithinDepth given k C) (variant : C.Variant D) : WithinDepth given k D := by
  obtain ⟨n, bound, E, derived, same⟩ := within
  exact ⟨n, bound, E, derived, same.trans variant⟩

theorem succ (within : WithinDepth given k C) : WithinDepth given (k + 1) C := by
  obtain ⟨n, bound, rest⟩ := within
  exact ⟨n, by omega, rest⟩

theorem resolvent (left : WithinDepth given k C) (right : WithinDepth given k D) (differ : ¬ C.Variant D)
    (apart : C.Apart D) (resolvent : Resolvent C D R) : WithinDepth given (k + 1) R := by
  obtain ⟨m, boundC, C₀, derivedC, variantC⟩ := left
  obtain ⟨n, boundD, D₀, derivedD, variantD⟩ := right
  have differ₀ : ¬ C₀.Variant D₀ := fun same => differ (variantC.symm.trans (same.trans variantD))
  refine ⟨max m n + 1, by omega, R, ?_, .refl R⟩
  exact .resolvent derivedC derivedD differ₀ variantC variantD apart resolvent

end WithinDepth

/-- Covered clauses have a variant of every resolvent of variants of two of them, in either order. -/
theorem exists_variant_of_covers {symbols : Symbols} {clauses : Set Clause} {c d : Clause} {C D R : LiteralSet}
    (formedC : c.Formed symbols) (formedD : d.Formed symbols) (apart : c.Apart d)
    (covers : Covers symbols clauses c d ∨ Covers symbols clauses d c) (left : C.Variant c.toSet)
    (right : D.Variant d.toSet) (disjoint : C.Apart D) (resolvent : Resolvent C D R) :
    ∃ r ∈ clauses, R.Variant r.toSet := by
  rcases covers with covers | covers
  · obtain ⟨clash, inside, bare, found, variant⟩ := Clause.exists_clash_of_resolvent formedC.nodup_literals
      formedD.nodup_literals left right disjoint apart resolvent symbols
    obtain ⟨r, member, same⟩ := covers clash inside bare found
    exact ⟨r, member, variant.trans (Clause.variant_of_same same).symm⟩
  · obtain ⟨clash, inside, bare, found, variant⟩ := Clause.exists_clash_of_resolvent formedD.nodup_literals
      formedC.nodup_literals right left disjoint.symm apart.symm resolvent.symm symbols
    obtain ⟨r, member, same⟩ := covers clash inside bare found
    exact ⟨r, member, variant.trans (Clause.variant_of_same same).symm⟩

namespace Search

theorem nodup_snapshot (search : Search) : search.snapshot.Nodup :=
  (List.mergeSort_perm _ _).nodup_iff.mpr search.known.nodup_toList

theorem mem_clauses {search : Search} {c : Clause} (member : c ∈ search.known.toList) : c ∈ search.clauses :=
  List.mem_append_left _ member

/-- The clauses that a search knows, up to the names of variables. -/
def classes (search : Search) : Set ClauseClass :=
  (fun c : Clause => (⟦c.toSet⟧ : ClauseClass)) '' {c | c ∈ search.known.toList}

/-- A search that knows exactly what can be derived with at most some depth. -/
structure Knows (symbols : Symbols) (given : Set LiteralSet) (k : Nat) (search : Search) : Prop where
  formed : ∀ c ∈ search.clauses, c.Formed symbols
  sound : ∀ c ∈ search.known.toList, WithinDepth given k c.toSet
  complete : ∀ C, WithinDepth given k C → ∃ c ∈ search.known.toList, C.Variant c.toSet

namespace Knows

variable {symbols : Symbols} {given : Set LiteralSet} {k : Nat} {search : Search}

/-- Different clauses that are known are no variants. -/
theorem not_variant (knows : search.Knows symbols given k) {c d : Clause} (left : c ∈ search.known.toList)
    (right : d ∈ search.known.toList) (differ : c ≠ d) : ¬ c.toSet.Variant d.toSet := by
  intro variant
  have same := ((knows.formed c (mem_clauses left)).same_iff_variant (knows.formed d (mem_clauses right))).mpr
    variant
  have pairwise := search.known.pairwise_toList
  have symmetric : Std.Symm fun c d : Clause => ¬ c.Same d := ⟨fun _ _ differ same => differ same.symm⟩
  exact pairwise.forall left right differ same

theorem ncard_classes (knows : search.Knows symbols given k) : search.classes.ncard = search.known.size := by
  classical
  have injective : Set.InjOn (fun c : Clause => (⟦c.toSet⟧ : ClauseClass)) {c | c ∈ search.known.toList} := by
    intro c left d right same
    by_contra differ
    exact knows.not_variant left right differ (Quotient.exact same)
  have listed : {c | c ∈ search.known.toList} = (search.known.toList.toFinset : Set Clause) := by
    ext c
    simp
  rw [classes, injective.ncard_image, listed, Set.ncard_coe_finset,
    List.toFinset_card_of_nodup search.known.nodup_toList, ClauseSet.size_eq_length]

theorem classes_subset (knows : search.Knows symbols given k) : search.classes ⊆ derivable given := by
  rintro κ ⟨c, member, rfl⟩
  obtain ⟨n, -, C, derived, variant⟩ := knows.sound c member
  exact mem_derivable_iff.mpr ⟨n, C, derived, variant⟩

end Knows

/-- A search that knows exactly what can be derived with at most some depth, without the empty clause. -/
structure AtLevel (symbols : Symbols) (given : Set LiteralSet) (k : Nat) (search : Search) : Prop
    extends search.Knows symbols given k where
  standardized : search.StandardizedApart
  nonempty : ∀ c ∈ search.clauses, c.isEmpty = false
  passes : search.tally.passes = k
  retained : search.tally.retained = search.known.size

namespace AtLevel

variable {policy : Policy} {symbols : Symbols} {clock : Clock} {given : Set LiteralSet} {k : Nat}
  {before after : Search} {outcome : Outcome}

/-- What comes out of a pair of the pass is one level deeper. -/
theorem within_of_mem_resolve (level : before.AtLevel symbols given k) {c d r : Clause} {supply : Supply}
    (paired : (c, d) ∈ pairs before.snapshot) (member : r ∈ (c.resolve symbols d supply).1) :
    WithinDepth given (k + 1) r.toSet := by
  have differ := rel_of_mem_pairs before.nodup_snapshot paired
  obtain ⟨left, right⟩ := of_mem_pairs paired
  rw [mem_snapshot] at left right
  obtain ⟨clash, inside, bare, supplied, found, rfl⟩ := Clause.exists_clash_of_mem_resolve member
  have resolvent := Clause.resolvent_of_clash (level.formed c (mem_clauses left)).nodup_literals
    (level.formed d (mem_clauses right)).nodup_literals inside found
  have apart := level.standardized.apart c (mem_clauses left) d (mem_clauses right) differ
  have bareWithin := (level.sound c left).resolvent (level.sound d right) (level.not_variant left right differ)
    apart.toSet resolvent
  exact bareWithin.of_variant (Clause.variant_of_same rfl)

/-- Two clauses that are known have their resolvents among the clauses that cover them. -/
theorem exists_variant (level : before.AtLevel symbols given k) {clauses : Set Clause}
    (covers : ∀ c ∈ before.known.toList, ∀ d ∈ before.known.toList, c ≠ d →
      Covers symbols clauses c d ∨ Covers symbols clauses d c)
    {C D C₁ D₁ R : LiteralSet} (knownC : ∃ c ∈ before.known.toList, C.Variant c.toSet)
    (knownD : ∃ d ∈ before.known.toList, D.Variant d.toSet) (differ : ¬ C.Variant D) (left : C.Variant C₁)
    (right : D.Variant D₁) (disjoint : C₁.Apart D₁) (resolvent : Resolvent C₁ D₁ R) :
    ∃ r ∈ clauses, R.Variant r.toSet := by
  obtain ⟨c, inC, variantC⟩ := knownC
  obtain ⟨d, inD, variantD⟩ := knownD
  have other : c ≠ d := by
    intro same
    rw [← same] at variantD
    exact differ (variantC.trans variantD.symm)
  exact exists_variant_of_covers (level.formed c (mem_clauses inC)) (level.formed d (mem_clauses inD))
    (level.standardized.apart c (mem_clauses inC) d (mem_clauses inD) other) (covers c inC d inD other)
    (left.symm.trans variantC) (right.symm.trans variantD) disjoint resolvent

theorem sound_of_pass (level : before.AtLevel symbols given k)
    (made : before.pass policy symbols clock = .running after) :
    ∀ c ∈ after.known.toList, WithinDepth given (k + 1) c.toSet := by
  obtain ⟨scanned, path, known, -, -⟩ := pass_eq_running made
  have start : scanned.known = before.known := path.known_eq
  have found : ∀ r ∈ scanned.found.toList, WithinDepth given (k + 1) r.toSet := by
    refine path.keeps (P := fun s => ∀ r ∈ s.found.toList, WithinDepth given (k + 1) r.toSet) ?_ ?_
    · intro c d paired s t all look r member
      obtain ⟨resolvents, perm, -, -, recorded, -⟩ := lookAt_eq_running look
      rw [recorded] at member
      rcases ClauseSet.mem_of_mem_insertAll member with old | new
      · exact all r old
      · exact level.within_of_mem_resolve paired (perm.subset new)
    · exact fun r member => absurd member List.not_mem_nil
  intro c member
  rw [known, start] at member
  rcases ClauseSet.mem_of_mem_insertAll member with old | new
  · exact (level.sound c old).succ
  · exact found c new

theorem complete_of_pass (level : before.AtLevel symbols given k)
    (made : before.pass policy symbols clock = .running after) (C : LiteralSet)
    (within : WithinDepth given (k + 1) C) : ∃ c ∈ after.known.toList, C.Variant c.toSet := by
  obtain ⟨n, bound, D, derived, variant⟩ := within
  have knows : ∃ c ∈ after.known.toList, D.Variant c.toSet := by
    cases derived with
    | given member =>
        obtain ⟨c, inside, same⟩ := level.complete D ⟨0, Nat.zero_le k, D, .given member, .refl D⟩
        exact ⟨c, known_subset_of_pass made inside, same⟩
    | @resolvent m n C₀ D₀ C₁ D₁ R derivedC derivedD differ left right disjoint resolvent =>
        have knownC := level.complete C₀ ⟨m, by omega, C₀, derivedC, .refl C₀⟩
        have knownD := level.complete D₀ ⟨n, by omega, D₀, derivedD, .refl D₀⟩
        exact level.exists_variant (fun c inC d inD => covers_of_pass_running made inC inD) knownC knownD
          differ left right disjoint resolvent
  obtain ⟨c, inside, same⟩ := knows
  exact ⟨c, inside, variant.symm.trans same⟩

theorem empty_notMem_classes (level : before.AtLevel symbols given k) : ⟦∅⟧ ∉ before.classes := by
  rintro ⟨c, inside, same⟩
  have empty := Clause.toSet_eq_empty_iff.mp (LiteralSet.Variant.eq_empty (Quotient.exact same))
  rw [level.nonempty c (mem_clauses inside)] at empty
  cases empty

/-- A pass that goes on leads to the next level. -/
theorem of_pass (level : before.AtLevel symbols given k)
    (made : before.pass policy symbols clock = .running after) : after.AtLevel symbols given (k + 1) where
  standardized := level.standardized.of_pass made
  formed := inherited_of_pass Clause.formed_of_mem_resolve level.formed made
  nonempty := nonempty_of_pass level.nonempty made
  sound := level.sound_of_pass made
  complete := level.complete_of_pass made
  passes := by rw [(pass_running_counts made).1, level.passes]
  retained := (pass_running_counts made).2.1

theorem of_runFor {n : Nat} (level : before.AtLevel symbols given k)
    (made : before.runFor policy symbols clock n = .running after) : after.AtLevel symbols given (k + n) := by
  induction n generalizing before k with
  | zero =>
      cases made
      exact level
  | succ n ih =>
      rw [runFor_succ] at made
      split at made
      · cases made
      · next between first =>
          rw [← Nat.add_assoc, Nat.add_right_comm]
          exact ih (level.of_pass first) made

theorem not_within_empty (level : before.AtLevel symbols given k) : ¬ WithinDepth given k ∅ := by
  intro within
  obtain ⟨c, inside, variant⟩ := level.complete ∅ within
  exact level.empty_notMem_classes ⟨c, inside, Quotient.sound variant.symm⟩

theorem within_empty_of_refuted (level : before.AtLevel symbols given k)
    (made : before.pass policy symbols clock = .finished outcome) (refuted : outcome.verdict = .refuted) :
    WithinDepth given (k + 1) ∅ := by
  rcases pass_eq_finished made with ⟨done, c, d, rest, between, split, -, late | look⟩ | ⟨saturated, -⟩
  · rw [late.2] at refuted
    cases refuted
  · obtain ⟨-, r, member, empty⟩ := lookAt_eq_finished look
    have deeper := level.within_of_mem_resolve (by simp [split]) member
    rwa [Clause.toSet_eq_empty_iff.mpr empty] at deeper
  · rw [saturated] at refuted
    cases refuted

/-- A pass that refutes makes the last step of a derivation of the empty set, and none is shorter. -/
theorem isLeast_of_refuted (level : before.AtLevel symbols given k)
    (made : before.pass policy symbols clock = .finished outcome) (refuted : outcome.verdict = .refuted) :
    IsLeast {n | Derived given n ∅} outcome.final.tally.passes := by
  have within := level.within_empty_of_refuted made refuted
  have above : ∀ n, Derived given n ∅ → k < n := by
    intro n derived
    by_contra small
    exact level.not_within_empty ⟨n, by omega, ∅, derived, .refl ∅⟩
  rw [(pass_finished_counts made).1, level.passes]
  refine ⟨?_, fun n derived => above n derived⟩
  obtain ⟨n, bound, D, derived, variant⟩ := within
  rw [variant.eq_empty] at derived
  have exactly : n = k + 1 := by
    have lower := above n derived
    omega
  exact exactly ▸ derived

/-- What is known when a pass finds nothing new is all that can be derived. -/
theorem known_of_saturated (level : before.AtLevel symbols given k)
    (made : before.pass policy symbols clock = .finished outcome) (saturated : outcome.verdict = .saturated)
    {n : Nat} {C : LiteralSet} (derived : Derived given n C) :
    ∃ c ∈ before.known.toList, C.Variant c.toSet := by
  induction derived with
  | @given C member => exact level.complete C ⟨0, Nat.zero_le k, C, .given member, .refl C⟩
  | resolvent _ _ differ left right disjoint resolvent ihC ihD =>
      exact level.exists_variant (fun c inC d inD => covers_of_pass_saturated made saturated inC inD) ihC ihD
        differ left right disjoint resolvent

theorem classes_eq_of_saturated (level : before.AtLevel symbols given k)
    (made : before.pass policy symbols clock = .finished outcome) (saturated : outcome.verdict = .saturated) :
    before.classes = derivable given := by
  apply Set.eq_of_subset_of_subset level.classes_subset
  rintro κ ⟨n, C, derived, rfl⟩
  obtain ⟨c, inside, variant⟩ := level.known_of_saturated made saturated derived
  exact ⟨c, inside, Quotient.sound variant.symm⟩

end AtLevel

end Search

namespace Problem

variable {p : Problem} {query : Literal} {policy : Policy} {outcome : Outcome}

theorem knows_search (formed : p.Formed) (inTable : query.Over p.symbols) :
    (p.search query).Knows p.symbols (p.premises query) 0 where
  formed := formed.search inTable
  sound := by
    intro c member
    obtain ⟨bare, listed, before, rfl⟩ := Clause.exists_of_mem_renameAll (mem_search (Search.mem_clauses member))
    have premise : bare.toSet ∈ p.premises query := mem_premises_iff.mpr ⟨bare, listed, rfl⟩
    exact ⟨0, Nat.le_refl 0, bare.toSet, .given premise, Clause.variant_of_same rfl⟩
  complete := by
    rintro C ⟨n, bound, D, derived, variant⟩
    cases derived with
    | given member =>
        obtain ⟨c, listed, rfl⟩ := mem_premises_iff.mp member
        obtain ⟨d, known, same⟩ := exists_same_search listed
        exact ⟨d, known, variant.symm.trans (Clause.variant_of_same same).symm⟩
    | resolvent => omega

theorem atLevel_search (formed : p.Formed) (inTable : query.Over p.symbols)
    (nonempty : ¬ (p.search query).known.toList.any Clause.isEmpty = true) :
    (p.search query).AtLevel p.symbols (p.premises query) 0 where
  toKnows := knows_search formed inTable
  standardized := p.standardizedApart_search query
  nonempty := by
    intro c member
    have known := (List.mem_append.mp member).resolve_right List.not_mem_nil
    exact Bool.eq_false_iff.mpr fun empty => nonempty (List.any_eq_true.mpr ⟨c, known, empty⟩)
  passes := rfl
  retained := rfl

section Closure

variable (formed : p.Formed) (inTable : query.Over p.symbols)
include formed inTable

/-- An outcome comes from an empty premise, or from the pass after some that went on. -/
theorem Ends.exists_level (ends : p.Ends policy query outcome) :
    (∅ ∈ p.premises query ∧ outcome.verdict = .refuted ∧ outcome.final.tally.passes = 0) ∨
    ∃ k last, Search.AtLevel p.symbols (p.premises query) k last ∧
      last.pass policy p.symbols .never = .finished outcome := by
  obtain ⟨passes, made⟩ := ends
  replace made := made passes (Nat.le_refl _)
  rw [proveFor_eq] at made
  split at made
  · next empty =>
      cases made
      obtain ⟨c, member, isEmpty⟩ := List.any_eq_true.mp empty
      obtain ⟨bare, listed, before, rfl⟩ := Clause.exists_of_mem_renameAll (mem_search (Search.mem_clauses member))
      have variant : bare.toSet.Variant (bare.rename before).1.toSet := Clause.variant_of_same rfl
      rw [Clause.toSet_eq_empty_iff.mpr isEmpty] at variant
      exact .inl ⟨mem_premises_iff.mpr ⟨bare, listed, variant.eq_empty⟩, rfl, rfl⟩
  · next nonempty =>
      obtain ⟨k, last, run, final⟩ := Search.exists_pass_of_finished made
      exact .inr ⟨0 + k, last, (atLevel_search formed inTable nonempty).of_runFor run, final⟩

theorem isLeast_passes (ends : p.Ends policy query outcome) (refuted : outcome.verdict = .refuted) :
    IsLeast {n | Derived (p.premises query) n ∅} outcome.final.tally.passes := by
  rcases ends.exists_level formed inTable with ⟨empty, -, zero⟩ | ⟨k, last, level, final⟩
  · rw [zero]
    exact ⟨.given empty, fun n _ => Nat.zero_le n⟩
  · exact level.isLeast_of_refuted final refuted

/-- A saturated search knows what can be derived. -/
theorem Ends.classes_eq (ends : p.Ends policy query outcome) (saturated : outcome.verdict = .saturated) :
    (∀ c ∈ outcome.final.known.toList, c.Formed p.symbols) ∧
      outcome.final.classes = derivable (p.premises query) := by
  rcases ends.exists_level formed inTable with ⟨-, refuted, -⟩ | ⟨k, last, level, final⟩
  · rw [refuted] at saturated
    cases saturated
  · rw [Search.classes, (Search.pass_finished_counts final).2.2]
    exact ⟨fun c member => level.formed c (Search.mem_clauses member),
      level.classes_eq_of_saturated final saturated⟩

/-- A saturated search knows one clause for each set that can be derived, and none is empty. -/
theorem derivable_of_saturated (ends : p.Ends policy query outcome) (saturated : outcome.verdict = .saturated) :
    (derivable (p.premises query)).Finite ∧ ⟦∅⟧ ∉ derivable (p.premises query) ∧
      outcome.final.tally.retained = (derivable (p.premises query)).ncard := by
  rcases ends.exists_level formed inTable with ⟨-, refuted, -⟩ | ⟨k, last, level, final⟩
  · rw [refuted] at saturated
    cases saturated
  · have all := level.classes_eq_of_saturated final saturated
    refine ⟨?_, ?_, ?_⟩
    · rw [← all]
      exact (List.finite_toSet last.known.toList).image _
    · rw [← all]
      exact level.empty_notMem_classes
    · rw [(Search.pass_finished_counts final).2.1, level.retained, ← level.ncard_classes, all]

/-- After any number of passes a search has ended, or it is at that level and each pass has added to what
it knows. -/
theorem exists_ends_or_level (policy : Policy) (n : Nat) :
    (∃ outcome, p.Ends policy query outcome ∧ outcome.final.tally.passes ≤ n) ∨
    ∃ last, Search.AtLevel p.symbols (p.premises query) n last ∧ n ≤ last.known.size := by
  cases made : p.proveFor policy .never n query with
  | finished outcome => exact .inl ⟨outcome, proveFor_eq_finished_iff.mp made⟩
  | running last =>
      rw [proveFor_eq] at made
      split at made
      · cases made
      · next nonempty =>
          have level := (atLevel_search formed inTable nonempty).of_runFor made
          have grown := Search.size_add_le_of_runFor made
          rw [Nat.zero_add] at level
          exact .inr ⟨last, level, by omega⟩

/-- Where finitely many sets can be derived the search ends, after no more passes than there are sets. -/
theorem exists_ends_of_finite (policy : Policy) (finite : (derivable (p.premises query)).Finite) :
    ∃ outcome, p.Ends policy query outcome ∧
      outcome.final.tally.passes ≤ (derivable (p.premises query)).ncard + 1 := by
  rcases exists_ends_or_level formed inTable policy ((derivable (p.premises query)).ncard + 1) with
    ends | ⟨last, level, grown⟩
  · exact ends
  · have bound := Set.ncard_le_ncard level.classes_subset finite
    rw [level.ncard_classes] at bound
    omega

/-- Where the empty set can be derived the search refutes the query, after no more passes than the
derivation is deep. -/
theorem exists_refuted_of_derived (policy : Policy) {n : Nat} (derived : Derived (p.premises query) n ∅) :
    ∃ outcome, p.Ends policy query outcome ∧ outcome.verdict = .refuted ∧ outcome.final.tally.passes ≤ n := by
  rcases exists_ends_or_level formed inTable policy n with ⟨outcome, ends, bound⟩ | ⟨last, level, -⟩
  · refine ⟨outcome, ends, ?_, bound⟩
    cases verdict : outcome.verdict with
    | refuted => rfl
    | saturated =>
        have none := (derivable_of_saturated formed inTable ends verdict).2.1
        exact absurd (mem_derivable_iff.mpr ⟨n, ∅, derived, .refl ∅⟩) none
    | timedOut => exact absurd verdict ends.ne_timedOut
  · exact absurd ⟨n, Nat.le_refl n, ∅, derived, .refl ∅⟩ level.not_within_empty

theorem exists_saturated_of_finite (policy : Policy) (finite : (derivable (p.premises query)).Finite)
    (nonempty : ⟦∅⟧ ∉ derivable (p.premises query)) :
    ∃ outcome, p.Ends policy query outcome ∧ outcome.verdict = .saturated ∧
      outcome.final.tally.passes ≤ (derivable (p.premises query)).ncard + 1 := by
  obtain ⟨outcome, ends, bound⟩ := exists_ends_of_finite formed inTable policy finite
  refine ⟨outcome, ends, ?_, bound⟩
  cases verdict : outcome.verdict with
  | refuted => exact absurd ⟨_, ∅, (isLeast_passes formed inTable ends verdict).1, rfl⟩ nonempty
  | saturated => rfl
  | timedOut => exact absurd verdict ends.ne_timedOut

end Closure

/-- Without a deadline a query is refuted exactly if the empty set is in the least family closed under
resolution, and the passes are as many as its shallowest derivation is deep; the search is saturated exactly
if that family is finite without the empty set, and it knows then as many clauses as the family has. -/
theorem search_realizes_derivable (p : Problem) (policy : Policy) (query : Literal) (formed : p.Formed)
    (inTable : query.Over p.symbols) :
    IsLeast {family | ResolutionClosed (p.premises query) family} (derivable (p.premises query)) ∧
    ((∃ outcome, p.Ends policy query outcome ∧ outcome.verdict = .refuted) ↔
      ⟦∅⟧ ∈ derivable (p.premises query)) ∧
    ((∃ outcome, p.Ends policy query outcome ∧ outcome.verdict = .saturated) ↔
      (derivable (p.premises query)).Finite ∧ ⟦∅⟧ ∉ derivable (p.premises query)) ∧
    ∀ outcome, p.Ends policy query outcome →
      (outcome.verdict = .refuted →
        IsLeast {n | Derived (p.premises query) n ∅} outcome.final.tally.passes) ∧
      (outcome.verdict = .saturated →
        outcome.final.tally.retained = (derivable (p.premises query)).ncard) := by
  refine ⟨isLeast_derivable _, ⟨?_, ?_⟩, ⟨?_, ?_⟩, fun outcome ends => ⟨?_, ?_⟩⟩
  · rintro ⟨outcome, ends, refuted⟩
    exact ⟨_, ∅, (isLeast_passes formed inTable ends refuted).1, rfl⟩
  · intro empty
    obtain ⟨n, C, derived, variant⟩ := mem_derivable_iff.mp empty
    rw [variant.eq_empty] at derived
    obtain ⟨outcome, ends, refuted, -⟩ := exists_refuted_of_derived formed inTable policy derived
    exact ⟨outcome, ends, refuted⟩
  · rintro ⟨outcome, ends, saturated⟩
    have all := derivable_of_saturated formed inTable ends saturated
    exact ⟨all.1, all.2.1⟩
  · rintro ⟨finite, nonempty⟩
    obtain ⟨outcome, ends, saturated, -⟩ := exists_saturated_of_finite formed inTable policy finite nonempty
    exact ⟨outcome, ends, saturated⟩
  · exact isLeast_passes formed inTable ends
  · exact fun saturated => (derivable_of_saturated formed inTable ends saturated).2.2

theorem formed_mothers : mothers.Formed := by
  intro c member
  obtain rfl := List.mem_singleton.mp member
  exact Clause.formed_ofLiterals (by decide)

/-- The refutation of "nobody is a parent of Ann" derives the empty set, in no more passes than it takes. -/
theorem mothers_derivable : mothers.Formed ∧ Literal.Over mothers.symbols ⟨true, 0, [.var 0, .const 2]⟩ ∧
    ⟦∅⟧ ∈ derivable (mothers.premises ⟨true, 0, [.var 0, .const 2]⟩) ∧
    ∃ outcome, mothers.Ends .standard ⟨true, 0, [.var 0, .const 2]⟩ outcome ∧
      IsLeast {n | Derived (mothers.premises ⟨true, 0, [.var 0, .const 2]⟩) n ∅}
        outcome.final.tally.passes := by
  have inTable : Literal.Over mothers.symbols ⟨true, 0, [.var 0, .const 2]⟩ := by decide
  obtain ⟨-, refutes, -, counts⟩ := search_realizes_derivable mothers .standard _ formed_mothers inTable
  obtain ⟨outcome, refuted, made⟩ := mothers_refuted .standard
  have ends : mothers.Ends .standard ⟨true, 0, [.var 0, .const 2]⟩ outcome := ⟨1, made⟩
  exact ⟨formed_mothers, inTable, refutes.mp ⟨outcome, ends, refuted⟩, outcome, ends,
    (counts outcome ends).1 refuted⟩

end Problem

end Refutation
