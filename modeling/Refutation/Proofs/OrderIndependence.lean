import Refutation.Proofs.Effort
import Refutation.Proofs.Factoring
import Refutation.Proofs.Profile

/-!
A search does not depend on the order of clauses. However the clauses of a problem are listed, and however
the resolvents of each pair are enumerated, a search without a deadline shows the same profile after every
number of passes. If it is saturated it has also spent the same: two searches of one problem that are
abreast know the same clauses, up to the names of variables, so all pairs together cost them the same.
-/

namespace Refutation

namespace Search

variable {policy policy' : Policy} {symbols : Symbols} {given : Set LiteralSet} {k : Nat} {one other : Search}

theorem nodup_canonical_snapshot (search : Search) : (search.snapshot.map Clause.canonical).Nodup := by
  have distinct : (search.known.toList.map Clause.canonical).Nodup := by
    rw [List.Nodup, List.pairwise_map]
    exact search.known.pairwise_toList
  exact ((List.mergeSort_perm _ _).map _).nodup_iff.mpr distinct

theorem AtLevel.canonical_subset (level : one.AtLevel symbols given k) (level' : other.AtLevel symbols given k) :
    one.snapshot.map Clause.canonical ⊆ other.snapshot.map Clause.canonical := by
  intro form member
  obtain ⟨c, inside, rfl⟩ := List.mem_map.mp member
  rw [mem_snapshot] at inside
  obtain ⟨d, known, variant⟩ := level'.complete c.toSet (level.sound c inside)
  have same := ((level.formed c (mem_clauses inside)).same_iff_variant
    (level'.formed d (mem_clauses known))).mpr variant
  exact List.mem_map.mpr ⟨d, mem_snapshot.mpr known, same.symm⟩

/-- Searches at one level take the same clauses into a pass. -/
theorem AtLevel.perm_canonical (level : one.AtLevel symbols given k) (level' : other.AtLevel symbols given k) :
    (one.snapshot.map Clause.canonical).Perm (other.snapshot.map Clause.canonical) := by
  refine (List.perm_ext_iff_of_nodup one.nodup_canonical_snapshot other.nodup_canonical_snapshot).mpr fun form => ?_
  exact ⟨fun member => level.canonical_subset level' member, fun member => level'.canonical_subset level member⟩

theorem AtLevel.pairwise_apart (level : one.AtLevel symbols given k) : one.snapshot.Pairwise Clause.Apart := by
  refine one.nodup_snapshot.pairwise_of_forall_ne fun c left d right differ => ?_
  exact level.standardized.apart c (mem_clauses (mem_snapshot.mp left)) d (mem_clauses (mem_snapshot.mp right)) differ

/-- A pass that looks at all pairs costs two searches at one level the same. -/
theorem AtLevel.effort_eq (level : one.AtLevel symbols given k) (level' : other.AtLevel symbols given k)
    (skips : policy.skips = policy'.skips) (efforts : one.effort = other.effort)
    (whole : ∀ outcome, one.pass policy symbols .never = .finished outcome → outcome.verdict = .saturated)
    (whole' : ∀ outcome, other.pass policy' symbols .never = .finished outcome → outcome.verdict = .saturated) :
    (one.pass policy symbols .never).search.effort = (other.pass policy' symbols .never).search.effort := by
  have costs : ((pairs one.snapshot).map (Effort.ofPair policy'.skips symbols)).Perm
      ((pairs other.snapshot).map (Effort.ofPair policy'.skips symbols)) :=
    Effort.perm_ofPair (fun c member => level.formed c (mem_clauses (mem_snapshot.mp member)))
      level.pairwise_apart level'.pairwise_apart (level.perm_canonical level')
  -- the costs of the pairs are added up in another order
  rw [effort_pass rfl whole, effort_pass rfl whole', skips, efforts]
  exact costs.foldl_eq other.effort

/-- Searches of one problem that are abreast and have spent the same go on so, unless they refute. -/
theorem Abreast.pass_effort (abreast : Abreast symbols symbols given given one other)
    (efforts : one.effort = other.effort) (skips : policy.skips = policy'.skips) :
    Status.Related (fun one other => Abreast symbols symbols given given one other ∧ one.effort = other.effort)
      (fun outcome outcome' => outcome.verdict = .saturated → outcome.final.effort = outcome'.final.effort)
      (one.pass policy symbols .never) (other.pass policy' symbols .never) := by
  have related := abreast.pass (.refl given) policy policy'
  obtain ⟨k, level, level', -⟩ := abreast
  have equal := level.effort_eq level' skips efforts
  generalize one.pass policy symbols .never = status at related equal ⊢
  generalize other.pass policy' symbols .never = status' at related equal ⊢
  cases related with
  | running abreast => exact .running ⟨abreast, equal (by simp) (by simp)⟩
  | finished same =>
      have verdicts := Option.some.inj (congrArg Profile.verdict? same)
      refine .finished fun saturated => equal ?_ ?_
      · rintro _ ⟨⟩
        exact saturated
      · rintro _ ⟨⟩
        exact verdicts.symm.trans saturated

end Search

namespace Problem

variable {p : Problem} {query : Literal} {clauses : List Clause} {policy policy' : Policy} {n : Nat}

theorem premises_perm (perm : clauses.Perm p.clauses) :
    ({ p with clauses } : Problem).premises query = p.premises query := by
  have same : {c | c ∈ clauses} = {c | c ∈ p.clauses} := Set.ext fun c => perm.mem_iff
  rw [premises, premises, same]

theorem Formed.perm (formed : p.Formed) (perm : clauses.Perm p.clauses) : ({ p with clauses } : Problem).Formed :=
  fun c member => formed c (perm.subset member)

/-- Before the first pass a search has issued the variables of all clauses, in whatever order. -/
theorem effort_search_perm (perm : clauses.Perm p.clauses) :
    (({ p with clauses } : Problem).search query).effort = (p.search query).effort := by
  have issued := sumOf_perm Clause.breadth
    ((perm.cons (Clause.ofLiterals p.symbols [query.negate])).map Clause.canonical)
  have supplies : (({ p with clauses } : Problem).refutationClauses query).2.issued =
      (p.refutationClauses query).2.issued := by
    rw [refutationClauses, refutationClauses, Clause.issued_renameAll, Clause.issued_renameAll, issued]
  exact congrArg (Effort.mk 0 0 0) supplies

theorem effort_of_saturated (formed : p.Formed) (inTable : query.Over p.symbols) (perm : clauses.Perm p.clauses)
    (skips : policy.skips = policy'.skips)
    (saturated : (({ p with clauses } : Problem).proveFor policy .never n query).verdict? = some .saturated) :
    (({ p with clauses } : Problem).proveFor policy .never n query).search.effort =
      (p.proveFor policy' .never n query).search.effort := by
  have knows := knows_search (formed.perm perm) inTable
  have knows' := knows_search formed inTable
  rw [premises_perm perm] at knows
  rw [proveFor_eq] at saturated
  rw [proveFor_eq, proveFor_eq]
  split at saturated
  · cases saturated
  · next nonempty =>
      have nonempty' : ¬ (p.search query).known.toList.any Clause.isEmpty = true := by
        rwa [knows'.any_isEmpty_iff, ← knows.any_isEmpty_iff]
      have level := atLevel_search (formed.perm perm) inTable nonempty
      rw [premises_perm perm] at level
      have start : Search.Abreast p.symbols p.symbols (p.premises query) (p.premises query)
          (({ p with clauses } : Problem).search query) (p.search query) :=
        ⟨0, level, atLevel_search formed inTable nonempty', rfl⟩
      have related := Search.runFor_related
        (R := fun one other => Search.Abreast p.symbols p.symbols (p.premises query) (p.premises query) one other ∧
          one.effort = other.effort)
        (fun both => both.1.pass_effort both.2 skips) ⟨start, effort_search_perm perm⟩ n
      rw [if_neg nonempty, if_neg nonempty']
      refine related.elim (Q := fun one other => one.verdict? = some .saturated →
        one.search.effort = other.search.effort) ?_ ?_ saturated
      · exact fun _ _ both _ => both.2
      · exact fun _ _ same verdict => same (Option.some.inj verdict)

/-- However the clauses of a problem are listed and the resolvents enumerated, a search without a deadline shows
the same; if it is saturated it has also looked at and skipped as many pairs, met as many resolvents and issued
as many variables. -/
theorem search_independent_of_order (p : Problem) (clauses : List Clause) (policy policy' : Policy)
    (query : Literal) (n : Nat) (formed : p.Formed) (inTable : query.Over p.symbols)
    (perm : clauses.Perm p.clauses) (skips : policy.skips = policy'.skips) :
    let one := ({ p with clauses } : Problem).proveFor policy .never n query
    let other := p.proveFor policy' .never n query
    one.profile = other.profile ∧ (one.verdict? = some .saturated → one.search.effort = other.search.effort) := by
  have similar : Similar (({ p with clauses } : Problem).premises query) (p.premises query) := by
    rw [premises_perm perm]
    exact .refl _
  exact ⟨profile_proveFor (formed.perm perm) inTable formed inTable similar policy policy' n,
    effort_of_saturated formed inTable perm skips⟩

open Weather in
/-- With the clauses listed and the resolvents enumerated the other way round, the search that does not find sun
in Oslo is saturated after as many passes and has spent the same. -/
theorem drizzle_reversed : ∃ outcome other, drizzle.Ends .standard ⟨true, 0, [.const 1]⟩ outcome ∧
    ({ drizzle with clauses := drizzle.clauses.reverse } : Problem).Ends backwards ⟨true, 0, [.const 1]⟩ other ∧
    other.verdict = .saturated ∧ other.final.tally.passes = outcome.final.tally.passes ∧
    other.final.effort = outcome.final.effort := by
  obtain ⟨outcome, ends, saturated⟩ := exists_saturated_drizzle
  obtain ⟨n, made⟩ := ends
  have same := search_independent_of_order drizzle drizzle.clauses.reverse backwards .standard
    ⟨true, 0, [.const 1]⟩ n formed_drizzle (by decide) (List.reverse_perm _) rfl
  rw [made n (Nat.le_refl n)] at same
  obtain ⟨profiles, efforts⟩ := same
  cases reversed : ({ drizzle with clauses := drizzle.clauses.reverse } : Problem).proveFor backwards .never n
      ⟨true, 0, [.const 1]⟩ with
  | running search =>
      rw [reversed] at profiles
      cases congrArg Profile.verdict? profiles
  | finished other =>
      rw [reversed] at profiles efforts
      have verdict : other.verdict = .saturated :=
        (Option.some.inj (congrArg Profile.verdict? profiles)).trans saturated
      exact ⟨outcome, other, ⟨n, made⟩, (proveFor_eq_finished_iff.mp reversed).1, verdict,
        congrArg Profile.passes profiles, efforts (congrArg some verdict)⟩

end Problem

end Refutation
