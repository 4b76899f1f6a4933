import Mathlib.Data.List.Permutation
import Refutation.Proofs.Factoring

/-!
Without variables the search decides. Its clauses have their literals from those of the problem and the
negated query, each once, since resolvents merge what is repeated. There are finitely many such clauses and
every pass adds one, so the search ends; and no two literals of a clause have a common instance, so the
verdict is right both ways.
-/

namespace Refutation

theorem Literal.subst_eq_self_of_ground {l : Literal} (ground : l.vars = []) (θ : VarId → Term) :
    l.subst θ = l := by
  apply l.subst_eq_self
  intro x occurs
  rw [ground] at occurs
  exact absurd occurs List.not_mem_nil

namespace Clause

/-- Whether the literals of a clause are from a list, each once. -/
structure Among (literals : List Literal) (c : Clause) : Prop where
  nodup : c.literals.Nodup
  subset : c.literals ⊆ literals

variable {literals : List Literal}

theorem vars_ofLiterals_of_ground {symbols : Symbols} (ground : ∀ l ∈ literals, l.vars = []) :
    (ofLiterals symbols literals).vars = [] :=
  List.flatMap_eq_nil_iff.mpr fun l listed => ground l ((mem_ofLiterals symbols literals).mp listed)

theorem literals_rename_of_ground {c : Clause} (ground : ∀ l ∈ c.literals, l.vars = []) (supply : Supply) :
    (c.rename supply).1.literals = c.literals := by
  have fixed : ∀ l ∈ c.literals, l.rename (supply.issue (.ofList c.vars)).1 = id l :=
    fun l member => Literal.subst_eq_self_of_ground (ground l member) _
  exact (List.map_congr_left fixed).trans (List.map_id c.literals)

theorem Among.rename {c : Clause} (among : c.Among literals) (ground : ∀ l ∈ literals, l.vars = [])
    (supply : Supply) : (c.rename supply).1.Among literals := by
  have same := literals_rename_of_ground (fun l member => ground l (among.subset member)) supply
  refine ⟨?_, ?_⟩
  · rw [same]
    exact among.nodup
  · rw [same]
    exact among.subset

/-- Resolvents take their literals from the two clauses and merge what is repeated. -/
theorem among_of_mem_resolve {symbols : Symbols} (ground : ∀ l ∈ literals, l.vars = []) (c d : Clause)
    (supply : Supply) (left : c.Among literals) (right : d.Among literals) (r : Clause)
    (member : r ∈ (c.resolve symbols d supply).1) : r.Among literals := by
  obtain ⟨clash, inside, bare, before, found, rfl⟩ := exists_clash_of_mem_resolve member
  obtain ⟨pickedLeft, pickedRight, -⟩ := mem_clashes_iff.mp inside
  obtain ⟨-, m, -, rfl⟩ := Clash.resolvent?_eq_some_iff.mp found
  refine Among.rename ⟨nodup_ofLiterals symbols _, fun l listed => ?_⟩ ground before
  obtain ⟨k, rest, rfl⟩ := List.mem_map.mp ((mem_ofLiterals symbols _).mp listed)
  have own : k ∈ literals := by
    rcases List.mem_append.mp rest with inLeft | inRight
    · exact left.subset ((sublist_of_mem_picks pickedLeft).subset inLeft)
    · exact right.subset ((sublist_of_mem_picks pickedRight).subset inRight)
  rw [Literal.subst_eq_self_of_ground (ground k own)]
  exact own

/-- The lists in which some literals can be arranged without repetition. -/
def arrangements (literals : List Literal) : List (List Literal) :=
  literals.sublists.flatMap List.permutations

theorem Among.mem_arrangements {c : Clause} (among : c.Among literals) :
    c.literals ∈ arrangements literals := by
  obtain ⟨chosen, perm, sublist⟩ := among.nodup.subperm among.subset
  exact List.mem_flatMap.mpr ⟨chosen, List.mem_sublists.mpr sublist, List.mem_permutations.mpr perm.symm⟩

end Clause

/-- Clauses that are not the same are arranged differently, so there are no more than arrangements. -/
theorem ClauseSet.size_le_of_among {known : ClauseSet} {literals : List Literal}
    (among : ∀ c ∈ known.toList, c.Among literals) : known.size ≤ (Clause.arrangements literals).length := by
  have distinct : (known.toList.map Clause.literals).Nodup := by
    rw [List.Nodup, List.pairwise_map]
    apply known.pairwise_toList.imp
    intro c d differ same
    apply differ
    rw [Clause.Same, c.standard, d.standard, same]
  have listed : known.toList.map Clause.literals ⊆ Clause.arrangements literals := by
    intro ls member
    obtain ⟨c, inside, rfl⟩ := List.mem_map.mp member
    exact (among c inside).mem_arrangements
  have bound := distinct.length_le_of_subset listed
  rwa [List.length_map, ← known.size_eq_length] at bound

/-- Different literals without variables have no common instance. -/
theorem factored_of_among {clauses : Set Clause} {literals : List Literal} (sign : Bool)
    (ground : ∀ l ∈ literals, l.vars = []) (among : ∀ c ∈ clauses, c.Among literals) :
    Factored sign clauses := by
  refine factored_of_distinct (fun c member => (among c member).nodup) ?_
  intro c member _ k listed l inside θ same
  have own := (among c member).subset
  rwa [Literal.subst_eq_self_of_ground (ground k (own listed)),
    Literal.subst_eq_self_of_ground (ground l (own inside))] at same

namespace Problem

universe u

variable {p : Problem} {query : Literal} {policy : Policy} {outcome : Outcome}

/-- The literals from which a search starts. -/
def premiseLiterals (p : Problem) (query : Literal) : List Literal :=
  query.negate :: p.clauses.flatMap Clause.literals

theorem vars_premiseLiterals (ground : ∀ c ∈ p.clauses, c.vars = []) (closed : query.vars = []) :
    ∀ l ∈ p.premiseLiterals query, l.vars = [] := by
  intro l member
  rcases List.mem_cons.mp member with rfl | later
  · exact closed
  · obtain ⟨c, listed, inside⟩ := List.mem_flatMap.mp later
    exact List.flatMap_eq_nil_iff.mp (ground c listed) l inside

theorem among_search (distinct : ∀ c ∈ p.clauses, c.literals.Nodup)
    (ground : ∀ l ∈ p.premiseLiterals query, l.vars = []) :
    ∀ c ∈ (p.search query).clauses, c.Among (p.premiseLiterals query) := by
  intro c member
  obtain ⟨bare, listed, before, rfl⟩ := Clause.exists_of_mem_renameAll (mem_search member)
  refine Clause.Among.rename ?_ ground before
  rcases List.mem_cons.mp listed with rfl | inside
  · refine ⟨Clause.nodup_ofLiterals _ _, fun l own => ?_⟩
    rw [Clause.mem_ofLiterals, List.mem_singleton] at own
    exact own ▸ List.mem_cons_self
  · refine ⟨distinct bare inside, fun l own => ?_⟩
    exact List.mem_cons_of_mem _ (List.mem_flatMap.mpr ⟨bare, inside, own⟩)

/-- Without variables every search ends, and the query is refuted if it is entailed and the search is
saturated if it is not. No clause that is made of literals repeats one. -/
theorem decides_ground (p : Problem) (policy : Policy) (query : Literal)
    (distinct : ∀ c ∈ p.clauses, c.literals.Nodup) (ground : ∀ c ∈ p.clauses, c.vars = [])
    (closed : query.vars = []) :
    ∃ outcome, p.Ends policy query outcome ∧ (outcome.verdict = .refuted ↔ Entails.{0} p query) ∧
      (outcome.verdict = .saturated ↔ ¬ Entails.{0} p query) := by
  have bare := vars_premiseLiterals ground closed
  have among : ∀ c ∈ Search.everKnown policy p.symbols (p.search query), c.Among (p.premiseLiterals query) :=
    Search.inherited_everKnown (Clause.among_of_mem_resolve bare) (among_search distinct bare)
  obtain ⟨outcome, ends⟩ : ∃ outcome, p.Ends policy query outcome := by
    apply exists_ends_of_bounded
    intro n last run
    exact ClauseSet.size_le_of_among fun c member => among c ⟨n, last, run, member⟩
  have complete : Entails.{0} p query → outcome.verdict = .refuted := by
    intro entails
    obtain ⟨n, other, refutes, refuted⟩ :=
      exists_refuted_of_factored policy (factored_of_among true bare among) entails
    rw [ends.unique (proveFor_eq_finished_iff.mp refutes).1]
    exact refuted
  refine ⟨outcome, ends, ⟨ends.entails, complete⟩, ?_, ?_⟩
  · intro saturated entails
    rw [complete entails] at saturated
    cases saturated
  · intro not
    cases verdict : outcome.verdict with
    | refuted => exact absurd (ends.entails verdict) not
    | saturated => rfl
    | timedOut => exact absurd verdict ends.ne_timedOut

/-- In the capital of Norway it rains or snows, and either makes it wet. -/
def forecast : Problem :=
  let symbols : Symbols := ⟨#["Wet", "capital", "Norway", "Rain", "Snow"], by decide⟩
  let oslo : Term := .app 1 [.const 2]
  ⟨symbols, [.ofLiterals symbols [⟨true, 3, [oslo]⟩, ⟨true, 4, [oslo]⟩],
    .ofLiterals symbols [⟨false, 3, [oslo]⟩, ⟨true, 0, [oslo]⟩],
    .ofLiterals symbols [⟨false, 4, [oslo]⟩, ⟨true, 0, [oslo]⟩]],
    [⟨true, 0, [oslo]⟩, ⟨true, 3, [oslo]⟩]⟩

theorem forecast_entails : Entails.{0} forecast ⟨true, 0, [.app 1 [.const 2]]⟩ := by
  intro I clauses
  obtain ⟨point⟩ := I.nonempty
  have either := clauses _ List.mem_cons_self fun _ => point
  have rain := clauses _ (List.mem_cons_of_mem _ List.mem_cons_self) fun _ => point
  have snow := clauses _ (List.mem_cons_of_mem _ (List.mem_cons_of_mem _ List.mem_cons_self)) fun _ => point
  simp only [Clause.mem_ofLiterals, List.mem_cons, List.not_mem_nil, or_false, exists_eq_or_imp,
    exists_eq_left, Interpretation.Holds, Interpretation.eval, Interpretation.evalAll] at either rain snow
  refine ⟨fun _ => point, ?_⟩
  simp only [Interpretation.Holds, Interpretation.eval, Interpretation.evalAll]
  grind

/-- It may snow. -/
theorem forecast_not_entails : ¬ Entails.{0} forecast ⟨true, 3, [.app 1 [.const 2]]⟩ := by
  intro entails
  obtain ⟨assign, holds⟩ := entails (.ofAtoms {a | ∃ args, a = .app 4 args ∨ a = .app 0 args}) (by
    intro c member assign
    simp only [forecast, List.mem_cons, List.not_mem_nil, or_false] at member
    rcases member with rfl | rfl | rfl <;> simp [Interpretation.holds_ofAtoms, Literal.atom])
  simp [Interpretation.holds_ofAtoms, Literal.atom] at holds

/-- That it is wet is found out, and so is that it need not rain. -/
theorem forecast_decided : (∀ c ∈ forecast.clauses, c.literals.Nodup ∧ c.vars = []) ∧
    (∃ outcome, forecast.Ends .standard ⟨true, 0, [.app 1 [.const 2]]⟩ outcome ∧ outcome.verdict = .refuted) ∧
    ∃ outcome, forecast.Ends .standard ⟨true, 3, [.app 1 [.const 2]]⟩ outcome ∧
      outcome.verdict = .saturated := by
  have all : ∀ c ∈ forecast.clauses, c.literals.Nodup ∧ c.vars = [] := by
    intro c member
    simp only [forecast, List.mem_cons, List.not_mem_nil, or_false] at member
    rcases member with rfl | rfl | rfl <;>
      exact ⟨Clause.nodup_ofLiterals _ _, Clause.vars_ofLiterals_of_ground (by decide)⟩
  obtain ⟨wet, ends, refuted, -⟩ := decides_ground forecast .standard ⟨true, 0, [.app 1 [.const 2]]⟩
    (fun c member => (all c member).1) (fun c member => (all c member).2) (by decide)
  obtain ⟨dry, ends', -, saturated⟩ := decides_ground forecast .standard ⟨true, 3, [.app 1 [.const 2]]⟩
    (fun c member => (all c member).1) (fun c member => (all c member).2) (by decide)
  exact ⟨all, ⟨wet, ends, refuted.mpr forecast_entails⟩, dry, ends', saturated.mpr forecast_not_entails⟩

end Problem

end Refutation
