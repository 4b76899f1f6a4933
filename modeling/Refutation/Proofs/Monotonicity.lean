import Refutation.Proofs.Levels

/-!
More clauses refute no fewer queries. What can be derived from some premises can be derived, as deep, from
others that have a variant of each, so a search among more clauses finds the empty clause no later.
-/

namespace Refutation

namespace Problem

variable {p q : Problem} {query : Literal}

theorem Formed.of_fewer (formed : q.Formed) (symbols : p.symbols = q.symbols)
    (more : ∀ c ∈ p.clauses, ∃ d ∈ q.clauses, c.Same d) : p.Formed := by
  intro c member
  obtain ⟨d, inside, same⟩ := more c member
  rw [symbols]
  exact (formed d inside).of_same same

theorem exists_variant_premise (more : ∀ c ∈ p.clauses, ∃ d ∈ q.clauses, c.Same d) :
    ∀ C ∈ p.premises query, ∃ D ∈ q.premises query, D.Variant C := by
  intro C member
  rcases member with rfl | ⟨c, listed, rfl⟩
  · exact ⟨_, Set.mem_insert _ _, .refl _⟩
  · obtain ⟨d, inside, same⟩ := more c listed
    exact ⟨d.toSet, Set.mem_insert_of_mem _ ⟨d, inside, rfl⟩, (Clause.variant_of_same same).symm⟩

/-- Where every clause of a problem is the same as one of another, a query that is refuted in the first is
refuted in the second, after no more passes. -/
theorem refuted_of_more_clauses (p q : Problem) (policy policy' : Policy) (query : Literal)
    (symbols : p.symbols = q.symbols) (formed : q.Formed) (inTable : query.Over q.symbols)
    (more : ∀ c ∈ p.clauses, ∃ d ∈ q.clauses, c.Same d) (outcome : Outcome)
    (ends : p.Ends policy query outcome) (refuted : outcome.verdict = .refuted) :
    ∃ other, q.Ends policy' query other ∧ other.verdict = .refuted ∧
      other.final.tally.passes ≤ outcome.final.tally.passes := by
  have least := isLeast_passes (formed.of_fewer symbols more) (symbols ▸ inTable) ends refuted
  obtain ⟨D, derived, variant⟩ := least.1.of_variants (exists_variant_premise more)
  rw [variant.eq_empty] at derived
  exact exists_refuted_of_derived formed inTable policy' derived

/-- Nobody is their own parent, and everybody's mother is a parent, twice and under other names. -/
def kinship : Problem :=
  ⟨mothers.symbols, [.ofLiterals mothers.symbols [⟨false, 0, [.var 3, .var 3]⟩],
    .ofLiterals mothers.symbols [⟨true, 0, [.app 1 [.var 7], .var 7]⟩],
    .ofLiterals mothers.symbols [⟨true, 0, [.app 1 [.var 0], .var 0]⟩]], []⟩

/-- Whoever is found a parent of Ann is still found. -/
theorem kinship_refuted : kinship.Formed ∧ (∀ c ∈ mothers.clauses, ∃ d ∈ kinship.clauses, c.Same d) ∧
    ∃ other, kinship.Ends .standard ⟨true, 0, [.var 0, .const 2]⟩ other ∧ other.verdict = .refuted := by
  have formed : kinship.Formed := by
    intro c member
    simp only [kinship, List.mem_cons, List.not_mem_nil, or_false] at member
    rcases member with rfl | rfl | rfl <;> exact Clause.formed_ofLiterals (by decide)
  have more : ∀ c ∈ mothers.clauses, ∃ d ∈ kinship.clauses, c.Same d := by
    intro c member
    obtain rfl := List.mem_singleton.mp member
    exact ⟨_, .tail _ (.tail _ (.head _)), rfl⟩
  obtain ⟨outcome, refuted, made⟩ := mothers_refuted .standard
  obtain ⟨other, ends, found, -⟩ := refuted_of_more_clauses mothers kinship .standard .standard _ rfl formed
    (by decide) more outcome ⟨1, made⟩ refuted
  exact ⟨formed, more, other, ends, found⟩

end Problem

end Refutation
