import Refutation.Proofs.Soundness
import Refutation.Proofs.StandardizedApart

/-!
Sets of clauses that have the resolvents of any two of their clauses, and their models. The clauses that a
search without end would come to know are such a set, and so are those known when it is saturated. Models
are sought among the terms, by saying which atoms are true: if the clauses known from the beginning have
one, then the clauses of the problem do not entail the query.
-/

namespace Refutation

/-- Two clauses without a common variable are instantiated by one substitution as by two. -/
theorem Clause.Apart.exists_common {c d : Clause} (apart : c.Apart d) (θ σ : VarId → Term) :
    ∃ τ, (∀ l ∈ c.literals, l.subst τ = l.subst θ) ∧ ∀ l ∈ d.literals, l.subst τ = l.subst σ := by
  refine ⟨fun x => if x ∈ c.vars then θ x else σ x, ?_, ?_⟩
  · intro l listed
    apply l.subst_congr
    intro x met
    exact if_pos (mem_flatMap_vars listed met)
  · intro l listed
    apply l.subst_congr
    intro x met
    exact if_neg fun shared => apart x shared (mem_flatMap_vars listed met)

/-- A set of clauses, renamed apart and without the empty clause, that has the resolvents of any two of
its clauses. -/
structure Saturated (symbols : Symbols) (clauses : Set Clause) : Prop where
  nonempty : ∀ c ∈ clauses, c.isEmpty = false
  apart : ∀ c ∈ clauses, ∀ d ∈ clauses, c ≠ d → c.Apart d
  covers : ∀ c ∈ clauses, ∀ d ∈ clauses, c ≠ d → Covers symbols clauses c d ∨ Covers symbols clauses d c

/-- Instances of two clauses that clash in a literal each are resolved by a clause of the set: its instance
consists of the others, and it has no more literals of either sign than they are. -/
theorem Saturated.exists_instance {symbols : Symbols} {clauses : Set Clause}
    (saturated : Saturated symbols clauses) {c d : Clause} (left : c ∈ clauses) (right : d ∈ clauses)
    (differ : c ≠ d) {p q : Literal} {ps qs : List Literal} {θ σ : VarId → Term}
    (pickedLeft : (p, ps) ∈ picks c.literals) (pickedRight : (q, qs) ∈ picks d.literals)
    (opposite : p.positive ≠ q.positive) (equal : p.atom.subst θ = q.atom.subst σ) :
    ∃ r ∈ clauses, (∀ sign : Bool → Bool, r.literals.countP (fun l => sign l.positive) ≤
        ps.countP (fun l => sign l.positive) + qs.countP (fun l => sign l.positive)) ∧
      ∃ ρ, ∀ l ∈ r.literals, (∃ k ∈ ps, l.subst ρ = k.subst θ) ∨ ∃ k ∈ qs, l.subst ρ = k.subst σ := by
  obtain ⟨τ, onLeft, onRight⟩ := (saturated.apart c left d right differ).exists_common θ σ
  have occursLeft : p ∈ c.literals := (perm_of_mem_picks pickedLeft).subset List.mem_cons_self
  have occursRight : q ∈ d.literals := (perm_of_mem_picks pickedRight).subset List.mem_cons_self
  have common : p.atom.subst τ = q.atom.subst τ := by
    rw [← Literal.atom_subst, ← Literal.atom_subst, onLeft p occursLeft, onRight q occursRight,
      Literal.atom_subst, Literal.atom_subst, equal]
  have split : ∀ {l k : Literal} {ρ : VarId → Term}, k ∈ ps ∨ k ∈ qs → l.subst ρ = k.subst τ →
      (∃ k ∈ ps, l.subst ρ = k.subst θ) ∨ ∃ k ∈ qs, l.subst ρ = k.subst σ := by
    rintro l k ρ (inLeft | inRight) same
    · have listed := (sublist_of_mem_picks pickedLeft).subset inLeft
      exact .inl ⟨k, inLeft, same.trans (onLeft k listed)⟩
    · have listed := (sublist_of_mem_picks pickedRight).subset inRight
      exact .inr ⟨k, inRight, same.trans (onRight k listed)⟩
  rcases saturated.covers c left d right differ with covers | covers
  · obtain ⟨r, member, counts, ρ, instances⟩ :=
      covers.exists_instance pickedLeft pickedRight opposite common
    refine ⟨r, member, counts, ρ, fun l listed => ?_⟩
    obtain ⟨k, rest, same⟩ := instances l listed
    exact split (List.mem_append.mp rest) same
  · obtain ⟨r, member, counts, ρ, instances⟩ :=
      covers.exists_instance pickedRight pickedLeft opposite.symm common.symm
    refine ⟨r, member, fun sign => (counts sign).trans_eq (Nat.add_comm _ _), ρ, fun l listed => ?_⟩
    obtain ⟨k, rest, same⟩ := instances l listed
    exact split (List.mem_append.mp rest).symm same

theorem nonempty_term : Nonempty Term := ⟨.const 0⟩

/-- The interpretation by terms in which the atoms of a set are true. -/
abbrev Interpretation.ofAtoms (atoms : Set Term) : Interpretation.{0} where
  Domain := Term
  nonempty := nonempty_term
  const := .const
  function := .app
  relation := fun predicate args => .app predicate args ∈ atoms

namespace Interpretation

variable {atoms : Set Term} {θ : VarId → Term}

theorem eval_ofAtoms (t : Term) : (ofAtoms atoms).eval θ t = t.subst θ := by
  induction t using Term.induct with
  | const c => rw [eval, Term.subst_const]
  | var x => rw [eval, Term.subst_var]
  | app f args ih =>
      rw [eval, evalAll_eq_map, Term.subst_app]
      exact congrArg (Term.app f) (List.map_congr_left ih)

theorem holds_ofAtoms (l : Literal) :
    (ofAtoms atoms).Holds θ l ↔ (l.positive = true ↔ l.atom.subst θ ∈ atoms) := by
  have atom : (ofAtoms atoms).relation l.predicate ((ofAtoms atoms).evalAll θ l.args) ↔
      l.atom.subst θ ∈ atoms := by
    rw [evalAll_eq_map, List.map_congr_left fun t _ => eval_ofAtoms t, Literal.atom, Term.subst_app]
  unfold Holds
  rw [atom]
  cases l.positive <;> simp

/-- Whether a literal holds depends on its instance only. -/
theorem holds_ofAtoms_congr {σ : VarId → Term} {l k : Literal} (same : l.subst σ = k.subst θ)
    (holds : (ofAtoms atoms).Holds σ l) : (ofAtoms atoms).Holds θ k := by
  rw [holds_ofAtoms, ← Literal.atom_subst] at holds ⊢
  rw [← same, ← show (l.subst σ).positive = k.positive by rw [same]; rfl]
  exact holds

end Interpretation

namespace Search

variable {policy : Policy} {symbols : Symbols} {first : Search}

/-- The clauses that a search without a deadline comes to know. -/
def everKnown (policy : Policy) (symbols : Symbols) (first : Search) : Set Clause :=
  {c | ∃ n last, first.runFor policy symbols .never n = .running last ∧ c ∈ last.known.toList}

/-- Any two clauses that come to be known are known together after some pass. -/
theorem exists_common {c d : Clause} (left : c ∈ everKnown policy symbols first)
    (right : d ∈ everKnown policy symbols first) :
    ∃ n last, first.runFor policy symbols .never n = .running last ∧
      c ∈ last.known.toList ∧ d ∈ last.known.toList := by
  have later : ∀ {n m : Nat} {s t : Search}, n ≤ m → first.runFor policy symbols .never n = .running s →
      first.runFor policy symbols .never m = .running t → s.known.toList ⊆ t.known.toList := by
    intro n m s t order early late
    have rest := runFor_add_of_running (m - n) early
    rw [Nat.add_sub_cancel' order, late] at rest
    exact known_subset_of_runFor rest.symm
  obtain ⟨n, s, early, memberC⟩ := left
  obtain ⟨m, t, late, memberD⟩ := right
  rcases Nat.le_total n m with order | order
  · exact ⟨m, t, late, later order early late memberC, memberD⟩
  · exact ⟨n, s, early, memberC, later order late early memberD⟩

/-- What a pass hands on to the clauses it finds holds of all that come to be known. -/
theorem inherited_everKnown {Q : Clause → Prop}
    (resolve : ∀ c d supply, Q c → Q d → ∀ r ∈ (c.resolve symbols d supply).1, Q r)
    (all : ∀ c ∈ first.clauses, Q c) : ∀ c ∈ everKnown policy symbols first, Q c := by
  rintro c ⟨n, last, run, member⟩
  exact runFor_keeps (fun s t => inherited_of_pass resolve) run all c (List.mem_append_left _ member)

/-- The clauses of a search that never refutes are saturated in the limit. -/
theorem saturated_everKnown (standardized : first.StandardizedApart)
    (nonempty : ∀ c ∈ first.clauses, c.isEmpty = false)
    (never : ∀ n outcome, first.runFor policy symbols .never n = .finished outcome →
      outcome.verdict ≠ .refuted) :
    Saturated symbols (everKnown policy symbols first) := by
  refine ⟨?_, ?_, ?_⟩
  · rintro c ⟨n, last, run, member⟩
    exact runFor_keeps (fun s t => nonempty_of_pass) run nonempty c (List.mem_append_left _ member)
  · intro c left d right differ
    obtain ⟨n, last, run, memberC, memberD⟩ := exists_common left right
    have apart := (runFor_keeps (fun s t => StandardizedApart.of_pass) run standardized).apart
    exact apart c (List.mem_append_left _ memberC) d (List.mem_append_left _ memberD) differ
  · intro c left d right differ
    obtain ⟨n, last, run, memberC, memberD⟩ := exists_common left right
    have next := runFor_succ_of_running run
    cases made : last.pass policy symbols .never with
    | running after =>
        rw [made] at next
        have sub : {r | r ∈ after.known.toList} ⊆ everKnown policy symbols first :=
          fun r member => ⟨n + 1, after, next, member⟩
        exact (covers_of_pass_running made memberC memberD differ).imp (Covers.mono · sub) (Covers.mono · sub)
    | finished outcome =>
        rw [made] at next
        have saturated : outcome.verdict = .saturated := by
          cases verdict : outcome.verdict with
          | refuted => exact absurd verdict (never (n + 1) outcome next)
          | saturated => rfl
          | timedOut => exact absurd verdict (verdict_ne_timedOut made)
        have sub : {r | r ∈ last.known.toList} ⊆ everKnown policy symbols first :=
          fun r member => ⟨n, last, run, member⟩
        exact (covers_of_pass_saturated made saturated memberC memberD differ).imp (Covers.mono · sub)
          (Covers.mono · sub)

end Search

namespace Problem

variable {p : Problem} {query : Literal}

/-- Where all that is known from the beginning is true, the clauses are and the query is not. -/
theorem not_entails_of_models {I : Interpretation.{0}}
    (known : ∀ c ∈ (p.search query).known.toList, I.Models c) : ¬ Entails.{0} p query := by
  have models : ∀ c ∈ Clause.ofLiterals p.symbols [query.negate] :: p.clauses, I.Models c := by
    intro c listed
    obtain ⟨d, member, same⟩ := exists_same_search listed
    obtain ⟨ρ, renames⟩ := Clause.exists_renames_of_same same
    exact Interpretation.models_of_renames renames (known d member)
  intro entails
  obtain ⟨assign, holds⟩ := entails I fun c inside => models c (List.mem_cons_of_mem _ inside)
  have negated := Interpretation.models_ofLiterals_singleton.mp (models _ List.mem_cons_self) assign
  exact (Interpretation.holds_negate query).mp negated holds

/-- An entailed query is refuted if the clauses that come to be known would have a model, were they
saturated. -/
theorem exists_refuted_of_models (policy : Policy)
    (model : Saturated p.symbols (Search.everKnown policy p.symbols (p.search query)) →
      ∃ I : Interpretation.{0}, ∀ c ∈ Search.everKnown policy p.symbols (p.search query), I.Models c)
    (entails : Entails.{0} p query) :
    ∃ passes outcome, p.proveFor policy .never passes query = .finished outcome ∧
      outcome.verdict = .refuted := by
  by_cases empty : (p.search query).known.toList.any Clause.isEmpty = true
  · exact ⟨0, ⟨.refuted, p.search query⟩, if_pos empty, rfl⟩
  · by_contra none
    have never : ∀ n outcome, (p.search query).runFor policy p.symbols .never n = .finished outcome →
        outcome.verdict ≠ .refuted := by
      intro n outcome run refuted
      exact none ⟨n, outcome, (if_neg empty).trans run, refuted⟩
    have nonempty : ∀ c ∈ (p.search query).clauses, c.isEmpty = false := by
      intro c member
      have known := (List.mem_append.mp member).resolve_right List.not_mem_nil
      rw [List.any_eq_true, not_exists] at empty
      exact Bool.eq_false_iff.mpr fun isEmpty => empty c ⟨known, isEmpty⟩
    obtain ⟨I, models⟩ := model
      (Search.saturated_everKnown (p.standardizedApart_search query) nonempty never)
    exact not_entails_of_models (fun c member => models c ⟨0, _, rfl, member⟩) entails

end Problem

end Refutation
