import Refutation.Interpretation
import Refutation.Proofs.Progress

/-!
A refutation proves entailment. An interpretation that makes two clauses true makes their resolvents
true: the literals resolved on are opposite under the unifier, so one of the others holds. Renaming does
not matter, and no interpretation makes the empty clause true, so none makes the clauses true and the
query false everywhere.
-/

namespace Refutation

universe u

namespace Interpretation

variable {I : Interpretation.{u}} {assign : VarId → I.Domain}

theorem evalAll_eq_map (ts : List Term) : I.evalAll assign ts = ts.map (I.eval assign) := by
  induction ts with
  | nil => rw [evalAll, List.map_nil]
  | cons t ts ih => rw [evalAll, ih, List.map_cons]

/-- Substituting before evaluating is evaluating under the values of the substituted terms. -/
theorem eval_subst (θ : VarId → Term) (t : Term) :
    I.eval assign (t.subst θ) = I.eval (fun x => I.eval assign (θ x)) t := by
  induction t using Term.induct with
  | const c => rw [Term.subst_const, eval, eval]
  | var x => rw [Term.subst_var, eval]
  | app f args ih =>
      rw [Term.subst_app, eval, eval, evalAll_eq_map, evalAll_eq_map, List.map_map]
      congr 1
      exact List.map_congr_left ih

theorem holds_subst (θ : VarId → Term) (l : Literal) :
    I.Holds assign (l.subst θ) ↔ I.Holds (fun x => I.eval assign (θ x)) l := by
  have args : I.evalAll assign (l.subst θ).args = I.evalAll (fun x => I.eval assign (θ x)) l.args := by
    rw [evalAll_eq_map, evalAll_eq_map, Literal.subst, List.map_map]
    exact List.map_congr_left fun t _ => eval_subst θ t
  unfold Holds
  rw [args]
  rfl

theorem holds_rename (ρ : VarId → VarId) (l : Literal) :
    I.Holds assign (l.rename ρ) ↔ I.Holds (fun x => assign (ρ x)) l := by
  rw [Literal.rename, holds_subst]
  simp only [eval]

theorem holds_negate (l : Literal) : I.Holds assign l.negate ↔ ¬ I.Holds assign l := by
  unfold Holds Literal.negate
  cases l.positive <;> simp

/-- Literals of opposite sign over one atom do not hold together. -/
theorem not_holds_of_opposite {l r : Literal} (opposite : l.positive ≠ r.positive) (atoms : l.atom = r.atom)
    (left : I.Holds assign l) : ¬ I.Holds assign r := by
  have negated : r = l.negate := by
    apply Literal.ext_atom
    · exact Bool.eq_not.mpr (Ne.symm opposite)
    · exact atoms.symm
  rw [negated, holds_negate]
  exact not_not_intro left

theorem models_of_renames {ρ : VarId → VarId} {c d : Clause} (renames : Renames ρ c.literals d.literals)
    (models : I.Models c) : I.Models d := by
  intro assign
  obtain ⟨l, member, holds⟩ := models fun x => assign (ρ x)
  exact ⟨l.rename ρ, renames.rename_mem member, (holds_rename ρ l).mpr holds⟩

theorem models_ofLiterals_singleton {symbols : Symbols} {l : Literal} :
    I.Models (.ofLiterals symbols [l]) ↔ ∀ assign, I.Holds assign l := by
  simp [Models]

theorem not_models_of_isEmpty {c : Clause} (empty : c.isEmpty = true) : ¬ I.Models c := by
  intro models
  obtain ⟨point⟩ := I.nonempty
  obtain ⟨l, member, -⟩ := models fun _ => point
  rw [Clause.isEmpty, List.isEmpty_iff] at empty
  rw [empty] at member
  exact List.not_mem_nil member

/-- What a clash leaves is true where both clauses are. -/
theorem models_resolvent {symbols : Symbols} {c d r : Clause} {clash : Clash} (inside : clash ∈ c.clashes d)
    (found : clash.resolvent? symbols = some r) (left : I.Models c) (right : I.Models d) : I.Models r := by
  obtain ⟨pickedLeft, pickedRight, opposite⟩ := Clause.mem_clashes_iff.mp inside
  obtain ⟨-, m, unified, rfl⟩ := Clash.resolvent?_eq_some_iff.mp found
  intro assign
  have rest : ∀ l ∈ clash.leftRest ++ clash.rightRest,
      I.Holds (fun x => I.eval assign (m.image x)) l →
      ∃ k ∈ (Clause.ofLiterals symbols
        ((clash.leftRest ++ clash.rightRest).map (Literal.subst m.image))).literals,
        I.Holds assign k := by
    intro l member holds
    refine ⟨l.subst m.image, ?_, (holds_subst m.image l).mpr holds⟩
    rw [Clause.mem_ofLiterals]
    exact List.mem_map_of_mem member
  obtain ⟨l, memberL, holdsL⟩ := left fun x => I.eval assign (m.image x)
  obtain ⟨k, memberK, holdsK⟩ := right fun x => I.eval assign (m.image x)
  rcases List.mem_cons.mp ((perm_of_mem_picks pickedLeft).mem_iff.mpr memberL) with rfl | otherL
  · rcases List.mem_cons.mp ((perm_of_mem_picks pickedRight).mem_iff.mpr memberK) with rfl | otherK
    · have opposed : (clash.left.subst m.image).positive ≠ (clash.right.subst m.image).positive := opposite
      have clashing := not_holds_of_opposite opposed (Clash.atoms_eq_of_resolvent unified)
        ((holds_subst m.image clash.left).mpr holdsL)
      exact absurd ((holds_subst m.image clash.right).mpr holdsK) clashing
    · exact rest k (List.mem_append_right _ otherK) holdsK
  · exact rest l (List.mem_append_left _ otherL) holdsL

theorem models_of_mem_resolve {symbols : Symbols} (c d : Clause) (supply : Supply) (left : I.Models c)
    (right : I.Models d) (r : Clause) (member : r ∈ (c.resolve symbols d supply).1) : I.Models r := by
  obtain ⟨clash, inside, bare, before, found, rfl⟩ := Clause.exists_clash_of_mem_resolve member
  exact models_of_renames (bare.renames_rename before) (models_resolvent inside found left right)

end Interpretation

/-- Nothing makes the clauses true from which the empty clause was found. -/
theorem Search.unsatisfiable_of_refuted {policy : Policy} {symbols : Symbols} {clock : Clock} {passes : Nat}
    {first : Search} {outcome : Outcome} (finished : first.saturateFor policy symbols clock passes = .finished outcome)
    (refuted : outcome.verdict = .refuted) (I : Interpretation.{u}) : ¬ ∀ c ∈ first.clauses, I.Models c := by
  intro models
  obtain ⟨r, empty, true⟩ := exists_empty_of_refuted Interpretation.models_of_mem_resolve models finished refuted
  exact Interpretation.not_models_of_isEmpty empty true

namespace Problem

theorem models_search {I : Interpretation.{u}} {p : Problem} {query : Literal}
    (clauses : ∀ c ∈ p.clauses, I.Models c) (none : ∀ assign, ¬ I.Holds assign query) :
    ∀ c ∈ (p.search query).clauses, I.Models c := by
  intro c member
  obtain ⟨bare, listed, before, rfl⟩ := Clause.exists_of_mem_renameAll (mem_search member)
  refine Interpretation.models_of_renames (bare.renames_rename before) ?_
  rcases List.mem_cons.mp listed with rfl | inside
  · rw [Interpretation.models_ofLiterals_singleton]
    exact fun assign => (Interpretation.holds_negate query).mpr (none assign)
  · exact clauses bare inside

/-- Clauses that no interpretation makes true prove the query that they deny. -/
theorem entails_of_unsatisfiable {p : Problem} {query : Literal}
    (none : ∀ I : Interpretation.{u}, ¬ ∀ c ∈ (p.search query).clauses, I.Models c) : Entails.{u} p query := by
  intro I clauses
  by_contra never
  exact none I (models_search clauses fun assign holds => never ⟨assign, holds⟩)

theorem Ends.entails {p : Problem} {policy : Policy} {query : Literal} {outcome : Outcome}
    (ends : p.Ends policy query outcome) (refuted : outcome.verdict = .refuted) : Entails.{u} p query := by
  obtain ⟨passes, made⟩ := ends
  exact entails_of_unsatisfiable (Search.unsatisfiable_of_refuted (made passes (Nat.le_refl passes)) refuted)

/-- A refuted query is entailed, whatever the clock did and in whichever order resolvents were recorded. -/
theorem entails_of_refuted (p : Problem) (policy : Policy) (clock : Clock) (passes : Nat) (query : Literal)
    (outcome : Outcome) (finished : p.proveFor policy clock passes query = .finished outcome)
    (refuted : outcome.verdict = .refuted) : Entails.{u} p query :=
  entails_of_unsatisfiable (Search.unsatisfiable_of_refuted finished refuted)

/-- Records the resolvents of a pair last ones first. -/
def backwards : Policy := ⟨true, fun _ cs => cs.reverse, fun _ => List.reverse_perm⟩

/-- Everybody's mother is a parent; who is Ann's? -/
def mothers : Problem :=
  let symbols : Symbols := ⟨#["Parent", "mother", "Ann"], by decide⟩
  ⟨symbols, [.ofLiterals symbols [⟨true, 0, [.app 1 [.var 0], .var 0]⟩]], [⟨true, 0, [.var 0, .const 2]⟩]⟩

theorem mothers_refuted (policy : Policy) : ∃ outcome, outcome.verdict = .refuted ∧ ∀ limit, 1 ≤ limit →
    mothers.proveFor policy .never limit ⟨true, 0, [.var 0, .const 2]⟩ = .finished outcome := by
  obtain ⟨denial, rule, clauses, denies, rules⟩ : ∃ denial rule : Clause,
      (mothers.refutationClauses ⟨true, 0, [.var 0, .const 2]⟩).1 = [denial, rule] ∧
      denial.literals = [⟨false, 0, [.var 0, .const 2]⟩] ∧
      rule.literals = [⟨true, 0, [.app 1 [.var 1], .var 1]⟩] := by
    refine ⟨_, _, rfl, ?_, ?_⟩
    · simp only [Clause.vars, Clause.literals_ofLiterals_singleton]
      decide
    · simp only [Clause.vars, Clause.literals_ofLiterals_singleton]
      decide
  have differ : ¬ denial.Same rule := by
    intro same
    obtain ⟨ρ, renames⟩ := Clause.exists_renames_of_same same
    obtain ⟨l, member, image⟩ := renames.exists_rename (rules ▸ List.mem_singleton_self _)
    rw [denies, List.mem_singleton] at member
    rw [member] at image
    cases congrArg Literal.positive image
  have known : (mothers.search ⟨true, 0, [.var 0, .const 2]⟩).known.toList = [denial, rule] := by
    rw [toList_search, clauses]
    rw [clauses, List.pairwise_pair]
    exact differ
  have paired := mem_pairs (c := denial) (d := rule) (Search.mem_snapshot.mpr (by rw [known]; simp))
    (Search.mem_snapshot.mpr (by rw [known]; simp)) fun same => differ (by rw [same]; rfl)
  -- a parent of Ann: her mother
  have equal : (Literal.atom ⟨false, 0, [.var 0, .const 2]⟩).subst
      (fun x => if x = 0 then .app 1 [.const 2] else .const 2) =
      (Literal.atom ⟨true, 0, [.app 1 [.var 1], .var 1]⟩).subst
      (fun x => if x = 0 then .app 1 [.const 2] else .const 2) := by simp [Literal.atom]
  have refutes : ∃ outcome, (mothers.search ⟨true, 0, [.var 0, .const 2]⟩).pass policy mothers.symbols
      .never = .finished outcome ∧ outcome.verdict = .refuted := by
    rcases paired with first | second
    · exact Search.exists_pass_refuted _ first
        (Clause.exists_empty_of_units denies rules (by decide) equal)
    · exact Search.exists_pass_refuted _ second
        (Clause.exists_empty_of_units rules denies (by decide) equal.symm)
  obtain ⟨outcome, pass, refuted⟩ := refutes
  have nonempty : ∀ c ∈ (mothers.search ⟨true, 0, [.var 0, .const 2]⟩).known.toList, c.isEmpty = false := by
    rw [known]
    simp [Clause.isEmpty, denies, rules]
  have once : mothers.proveFor policy .never 1 ⟨true, 0, [.var 0, .const 2]⟩ = .finished outcome :=
    Search.saturateFor_of_pass nonempty pass
  exact ⟨outcome, refuted, fun limit => proveFor_of_finished once⟩

/-- The mother that unification finds makes the query true everywhere. -/
theorem mothers_entails : (∃ outcome, outcome.verdict = .refuted ∧
      mothers.proveFor backwards .never 1 ⟨true, 0, [.var 0, .const 2]⟩ = .finished outcome) ∧
    Entails.{0} mothers ⟨true, 0, [.var 0, .const 2]⟩ := by
  obtain ⟨outcome, refuted, made⟩ := mothers_refuted backwards
  have finished := made 1 (Nat.le_refl 1)
  exact ⟨⟨outcome, refuted, finished⟩, entails_of_refuted mothers backwards .never 1 _ outcome finished refuted⟩

end Problem

end Refutation
