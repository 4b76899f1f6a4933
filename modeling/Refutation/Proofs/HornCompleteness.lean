import Refutation.Proofs.SaturatedSets

/-!
On Horn clauses the search is complete. The clauses that a search without end would come to know, or
those known when it is saturated, have a model unless the empty clause is among them: the terms, with
the instances of positive unit clauses for true atoms. A clause with a true negated atom resolves with
a unit, and the resolvent is shorter, so every clause is true by induction on its length. Hence if no
refutation is found then the clauses of the problem and the negated query have a model.
-/

namespace Refutation

namespace Clause

/-- Whether a clause has at most one positive literal. -/
def Horn (c : Clause) : Prop := c.literals.countP Literal.positive ≤ 1

instance (c : Clause) : Decidable c.Horn := inferInstanceAs (Decidable (_ ≤ _))

theorem horn_ofLiterals_singleton (symbols : Symbols) (l : Literal) : (ofLiterals symbols [l]).Horn :=
  (countP_ofLiterals_le symbols [l] Literal.positive).trans List.countP_le_length

theorem Horn.rename {c : Clause} (horn : c.Horn) (supply : Supply) : (c.rename supply).1.Horn := by
  unfold Horn
  rw [show (c.rename supply).1.literals.countP Literal.positive = c.literals.countP Literal.positive from
    List.countP_map]
  exact horn

/-- One of two literals of opposite sign is positive, so what a clash leaves is Horn. -/
theorem Horn.resolvent {symbols : Symbols} {c d r : Clause} {clash : Clash} (inside : clash ∈ c.clashes d)
    (found : clash.resolvent? symbols = some r) (left : c.Horn) (right : d.Horn) : r.Horn := by
  obtain ⟨pickedLeft, pickedRight, opposite⟩ := mem_clashes_iff.mp inside
  have fewer : r.literals.countP Literal.positive ≤
      clash.leftRest.countP Literal.positive + clash.rightRest.countP Literal.positive :=
    Clash.countP_resolvent_le found id
  unfold Horn at left right ⊢
  rw [← (perm_of_mem_picks pickedLeft).countP_eq, List.countP_cons] at left
  rw [← (perm_of_mem_picks pickedRight).countP_eq, List.countP_cons] at right
  have one : (if clash.left.positive = true then 1 else 0) +
      (if clash.right.positive = true then 1 else 0) = 1 := by
    rw [Bool.eq_not.mpr opposite]
    cases clash.right.positive <;> rfl
  omega

theorem horn_of_mem_resolve {symbols : Symbols} (c d : Clause) (supply : Supply) (left : c.Horn)
    (right : d.Horn) (r : Clause) (member : r ∈ (c.resolve symbols d supply).1) : r.Horn := by
  obtain ⟨clash, inside, bare, before, found, rfl⟩ := exists_clash_of_mem_resolve member
  exact (Horn.resolvent inside found left right).rename before

/-- A Horn clause without negative literals is a single literal, unless it is empty. -/
theorem Horn.exists_eq_singleton {c : Clause} (horn : c.Horn) (nonempty : c.isEmpty = false)
    (positive : ∀ l ∈ c.literals, l.positive = true) : ∃ l, c.literals = [l] := by
  unfold Horn at horn
  rw [List.countP_eq_length.mpr positive] at horn
  have some : c.literals ≠ [] := by
    intro none
    rw [isEmpty, none] at nonempty
    cases nonempty
  have length : c.literals.length = 1 := by
    have := List.length_pos_iff.mpr some
    omega
  exact List.length_eq_one_iff.mp length

end Clause

/-- Whether an atom is an instance of a positive unit clause of the set. -/
def UnitInstance (clauses : Set Clause) (atom : Term) : Prop :=
  ∃ c ∈ clauses, ∃ l θ, c.literals = [l] ∧ l.positive = true ∧ l.atom.subst θ = atom

/-- The interpretation by terms in which the instances of positive unit clauses are true. -/
abbrev Interpretation.ofUnits (clauses : Set Clause) : Interpretation.{0} :=
  .ofAtoms {atom | UnitInstance clauses atom}

/-- A saturated set of Horn clauses. -/
structure HornSaturated (symbols : Symbols) (clauses : Set Clause) : Prop extends Saturated symbols clauses where
  horn : ∀ c ∈ clauses, c.Horn

namespace HornSaturated

variable {symbols : Symbols} {clauses : Set Clause}

/-- A negative literal whose atom is an instance of a unit can be resolved away. -/
theorem exists_shorter (saturated : HornSaturated symbols clauses) {c : Clause} (member : c ∈ clauses)
    {p : Literal} (occurs : p ∈ c.literals) (negative : p.positive = false) {θ : VarId → Term}
    (unit : UnitInstance clauses (p.atom.subst θ)) :
    ∃ r ∈ clauses, r.size < c.size ∧ ∃ σ, ∀ l ∈ r.literals, ∃ k ∈ c.literals, l.subst σ = k.subst θ := by
  obtain ⟨d, inside, q, σ, single, positive, instanced⟩ := unit
  have differ : c ≠ d := by
    intro same
    rw [same, single, List.mem_singleton] at occurs
    rw [occurs, positive] at negative
    cases negative
  obtain ⟨ps, picked⟩ := exists_mem_picks occurs
  have pickedUnit : (q, []) ∈ picks d.literals := by
    rw [single]
    exact List.mem_singleton_self _
  have opposite : p.positive ≠ q.positive := by
    rw [negative, positive]
    decide
  obtain ⟨r, kept, counts, ρ, instances⟩ :=
    saturated.exists_instance member inside differ picked pickedUnit opposite instanced.symm
  have length : ps.length + 1 = c.size := (perm_of_mem_picks picked).length_eq
  have shorter : r.size ≤ ps.length := by simpa [Clause.size] using counts fun _ => true
  refine ⟨r, kept, by omega, ρ, fun l listed => ?_⟩
  obtain ⟨k, left, same⟩ | ⟨k, right, -⟩ := instances l listed
  · exact ⟨k, (sublist_of_mem_picks picked).subset left, same⟩
  · exact absurd right List.not_mem_nil

/-- Every clause is true where the instances of units are. -/
theorem models (saturated : HornSaturated symbols clauses) {c : Clause} (member : c ∈ clauses) :
    (Interpretation.ofUnits clauses).Models c := by
  induction size : c.size using Nat.strongRecOn generalizing c with
  | ind n ih =>
      intro θ
      by_cases positive : ∀ l ∈ c.literals, l.positive = true
      · obtain ⟨l, single⟩ := (saturated.horn c member).exists_eq_singleton
          (saturated.nonempty c member) positive
        have listed : l ∈ c.literals := by
          rw [single]
          exact List.mem_singleton_self l
        refine ⟨l, listed, Interpretation.holds_ofAtoms l |>.mpr ?_⟩
        exact iff_of_true (positive l listed) ⟨c, member, l, θ, single, positive l listed, rfl⟩
      · push Not at positive
        obtain ⟨p, occurs, negative⟩ := positive
        rw [ne_eq, Bool.not_eq_true] at negative
        by_cases unit : UnitInstance clauses (p.atom.subst θ)
        · obtain ⟨r, kept, shorter, σ, instances⟩ := saturated.exists_shorter member occurs negative unit
          obtain ⟨l, listed, holds⟩ := ih r.size (size ▸ shorter) kept rfl σ
          obtain ⟨k, inside, same⟩ := instances l listed
          exact ⟨k, inside, Interpretation.holds_ofAtoms_congr same holds⟩
        · refine ⟨p, occurs, Interpretation.holds_ofAtoms p |>.mpr ?_⟩
          exact iff_of_false (by rw [negative]; decide) unit

end HornSaturated

namespace Problem

variable {p : Problem} {query : Literal}

theorem horn_search (horn : ∀ c ∈ p.clauses, c.Horn) : ∀ c ∈ (p.search query).clauses, c.Horn := by
  intro c member
  obtain ⟨bare, listed, before, rfl⟩ := Clause.exists_of_mem_renameAll (mem_search member)
  rcases List.mem_cons.mp listed with rfl | inside
  · exact (Clause.horn_ofLiterals_singleton p.symbols query.negate).rename before
  · exact (horn bare inside).rename before

theorem exists_refuted_of_horn (policy : Policy) (horn : ∀ c ∈ p.clauses, c.Horn)
    (entails : Entails.{0} p query) :
    ∃ passes outcome, p.proveFor policy .never passes query = .finished outcome ∧
      outcome.verdict = .refuted := by
  refine exists_refuted_of_models policy (fun saturated => ?_) entails
  have limit : HornSaturated p.symbols (Search.everKnown policy p.symbols (p.search query)) :=
    ⟨saturated, Search.inherited_everKnown Clause.horn_of_mem_resolve (horn_search horn)⟩
  exact ⟨_, fun c member => limit.models member⟩

/-- An entailed query of a Horn problem is refuted after finitely many passes, and no search for it ends
saturated, in whichever order resolvents are recorded. -/
theorem refuted_of_entails_horn (p : Problem) (policy : Policy) (query : Literal) (horn : ∀ c ∈ p.clauses, c.Horn)
    (entails : Entails.{0} p query) :
    (∃ outcome, p.Ends policy query outcome ∧ outcome.verdict = .refuted) ∧
    (∀ passes outcome, p.proveFor policy .never passes query = .finished outcome → outcome.verdict = .refuted) ∧
    ∀ clock passes outcome, p.proveFor policy clock passes query = .finished outcome →
      outcome.verdict ≠ .saturated := by
  obtain ⟨limit, outcome, made, refuted⟩ := exists_refuted_of_horn policy horn entails
  refine ⟨⟨outcome, (proveFor_eq_finished_iff.mp made).1, refuted⟩, ?_, ?_⟩
  · intro passes other ends
    rw [← proveFor_unique made ends]
    exact refuted
  · intro clock passes other ends saturated
    have inTime : other.verdict ≠ .timedOut := by
      rw [saturated]
      decide
    rw [← proveFor_unique made (proveFor_never ends inTime), refuted] at saturated
    cases saturated

/-- Zero is a number, and so is the successor of a number. -/
def numbers : Problem :=
  let symbols : Symbols := ⟨#["Number", "zero", "successor"], by decide⟩
  ⟨symbols, [.ofLiterals symbols [⟨true, 0, [.const 1]⟩],
    .ofLiterals symbols [⟨false, 0, [.var 0]⟩, ⟨true, 0, [.app 2 [.var 0]]⟩]],
    [⟨true, 0, [.app 2 [.app 2 [.var 0]]]⟩]⟩

theorem numbers_entails : Entails.{0} numbers ⟨true, 0, [.app 2 [.app 2 [.var 0]]]⟩ := by
  intro I clauses
  obtain ⟨point⟩ := I.nonempty
  have zero : I.relation 0 [I.const 1] := by
    have holds := clauses _ List.mem_cons_self fun _ => point
    simpa [Interpretation.Holds, Interpretation.eval, Interpretation.evalAll] using holds
  have next : ∀ x, I.relation 0 [x] → I.relation 0 [I.function 2 [x]] := by
    intro x number
    have holds := clauses _ (List.mem_cons_of_mem _ List.mem_cons_self) fun _ => x
    simpa [Interpretation.Holds, Interpretation.eval, Interpretation.evalAll, number] using holds
  refine ⟨fun _ => I.const 1, ?_⟩
  simpa [Interpretation.Holds, Interpretation.eval, Interpretation.evalAll] using next _ (next _ zero)

/-- There is a number after the next: the refutation goes through the rule twice. -/
theorem numbers_refuted : (∀ c ∈ numbers.clauses, c.Horn) ∧
    ∃ outcome, numbers.Ends backwards ⟨true, 0, [.app 2 [.app 2 [.var 0]]]⟩ outcome ∧
      outcome.verdict = .refuted := by
  have horn : ∀ c ∈ numbers.clauses, c.Horn := by
    intro c member
    rcases List.mem_cons.mp member with rfl | later
    · exact Clause.horn_ofLiterals_singleton _ _
    · rw [List.mem_singleton] at later
      subst later
      exact (Clause.countP_ofLiterals_le _ _ _).trans (by decide)
  exact ⟨horn, (refuted_of_entails_horn numbers backwards _ horn numbers_entails).1⟩

end Problem

end Refutation
