import Mathlib.Order.TeichmullerTukey
import Refutation.Proofs.Levels
import Refutation.Proofs.SaturatedSets

/-!
When a saturated search may be trusted. A resolvent drops one literal of each of its two clauses, and no two
literals of one clause are ever unified, so a saturated set of clauses can lack the empty clause and have no
model. It has one if it is factored for one of the two signs: wherever two literals of a clause with literals
of that sign only have a common instance, the instance of the clause contains one of a shorter clause.

The model makes as many atoms as possible untrue of that sign. Then every other atom has a clause of that
sign that depends on it, in a single literal, since the clause is factored. A clause with a literal of the
other sign resolves with it to one that has fewer, so all clauses are true by induction on their number.
-/

namespace Refutation

/-- Whether all literals of a clause have one sign. -/
def Clause.Signed (sign : Bool) (c : Clause) : Prop := ∀ l ∈ c.literals, l.positive = sign

/-- Whether a clause of one sign, where two of its literals have a common instance, contains there an
instance of a shorter clause. -/
def Factored (sign : Bool) (clauses : Set Clause) : Prop :=
  ∀ c ∈ clauses, c.Signed sign → ∀ k rest, (k, rest) ∈ picks c.literals → ∀ l ∈ rest,
    ∀ θ, k.subst θ = l.subst θ →
      ∃ d ∈ clauses, d.size < c.size ∧ ∃ σ, ∀ j ∈ d.literals, ∃ i ∈ c.literals, j.subst σ = i.subst θ

/-- Whether each instance of a clause of one sign has an atom that is not in the set. -/
def Spares (sign : Bool) (clauses : Set Clause) (atoms : Set Term) : Prop :=
  ∀ c ∈ clauses, c.Signed sign → ∀ θ, ∃ l ∈ c.literals, l.atom.subst θ ∉ atoms

theorem isOfFiniteCharacter_spares (sign : Bool) (clauses : Set Clause) :
    Order.IsOfFiniteCharacter {atoms | Spares sign clauses atoms} := by
  intro atoms
  constructor
  · intro spares finite sub _ c member signed θ
    obtain ⟨l, listed, outside⟩ := spares c member signed θ
    exact ⟨l, listed, fun inside => outside (sub inside)⟩
  · intro spares c member signed θ
    -- a clause has finitely many atoms, and only those matter
    have finite : ({a | a ∈ c.literals.map fun l => l.atom.subst θ} ∩ atoms).Finite :=
      (List.finite_toSet _).inter_of_left atoms
    obtain ⟨l, listed, outside⟩ := spares _ Set.inter_subset_right finite c member signed θ
    exact ⟨l, listed, fun inside => outside ⟨List.mem_map.mpr ⟨l, listed, rfl⟩, inside⟩⟩

theorem exists_maximal_spares (sign : Bool) {clauses : Set Clause}
    (nonempty : ∀ c ∈ clauses, c.isEmpty = false) : ∃ atoms, Maximal (Spares sign clauses) atoms := by
  have spared : Spares sign clauses ∅ := by
    intro c member _ θ
    obtain ⟨l, listed⟩ := List.exists_mem_of_ne_nil c.literals
      (List.isEmpty_eq_false_iff.mp (nonempty c member))
    exact ⟨l, listed, Set.notMem_empty _⟩
  obtain ⟨atoms, -, maximal⟩ := (isOfFiniteCharacter_spares sign clauses).exists_maximal spared
  exact ⟨atoms, maximal⟩

namespace Factored

variable {symbols : Symbols} {clauses : Set Clause} {sign : Bool} {atoms : Set Term}

/-- An atom outside a maximal set is what some clause depends on, in a single literal. -/
theorem exists_producer (factored : Factored sign clauses) (maximal : Maximal (Spares sign clauses) atoms)
    {a : Term} (outside : a ∉ atoms) :
    ∃ c ∈ clauses, c.Signed sign ∧ ∃ θ k rest, (k, rest) ∈ picks c.literals ∧ k.atom.subst θ = a ∧
      ∀ l ∈ rest, l.atom.subst θ ∈ atoms := by
  have some : ∃ c ∈ clauses, c.Signed sign ∧ ∃ θ, ∀ l ∈ c.literals, l.atom.subst θ ∈ insert a atoms := by
    by_contra none
    push Not at none
    exact outside (maximal.le_of_ge none (Set.subset_insert a atoms) (Set.mem_insert a atoms))
  obtain ⟨c, member, signed, θ, within⟩ := some
  induction size : c.size using Nat.strongRecOn generalizing c θ with
  | ind n ih =>
      obtain ⟨k, listed, missing⟩ := maximal.prop c member signed θ
      have depends : k.atom.subst θ = a := (within k listed).resolve_right missing
      obtain ⟨rest, picked⟩ := exists_mem_picks listed
      by_cases single : ∀ l ∈ rest, l.atom.subst θ ∈ atoms
      · exact ⟨c, member, signed, θ, k, rest, picked, depends, single⟩
      · -- a second literal with that atom: a shorter clause depends on it, too
        push Not at single
        obtain ⟨l, another, alike⟩ := single
        have inside : l ∈ c.literals := (sublist_of_mem_picks picked).subset another
        have merged : k.subst θ = l.subst θ := by
          apply Literal.ext_atom
          · exact (signed k listed).trans (signed l inside).symm
          · rw [Literal.atom_subst, Literal.atom_subst, depends, (within l inside).resolve_right alike]
        obtain ⟨d, kept, shorter, σ, instances⟩ := factored c member signed k rest picked l another θ merged
        refine ih d.size (size ▸ shorter) d kept ?_ σ ?_ rfl
        · intro j occurs
          obtain ⟨i, own, same⟩ := instances j occurs
          have signs : (j.subst σ).positive = (i.subst θ).positive := congrArg Literal.positive same
          exact signs.trans (signed i own)
        · intro j occurs
          obtain ⟨i, own, same⟩ := instances j occurs
          rw [← Literal.atom_subst, same, Literal.atom_subst]
          exact within i own

/-- Which atoms are true if those of a set are not, for literals of one sign. -/
def truth (sign : Bool) (atoms : Set Term) : Set Term := {a | a ∈ atoms ↔ sign = false}

theorem holds_truth_iff {θ : VarId → Term} {l : Literal} :
    (Interpretation.ofAtoms (truth sign atoms)).Holds θ l ↔ (l.atom.subst θ ∈ atoms ↔ l.positive ≠ sign) := by
  rw [Interpretation.holds_ofAtoms, truth, Set.mem_ofPred_eq]
  cases l.positive <;> cases sign <;> simp

/-- Every clause of a saturated and factored set is true where a maximal set of atoms is not. -/
theorem models (factored : Factored sign clauses) (saturated : Saturated symbols clauses)
    (maximal : Maximal (Spares sign clauses) atoms) {c : Clause} (member : c ∈ clauses) :
    (Interpretation.ofAtoms (truth sign atoms)).Models c := by
  induction count : c.literals.countP (fun l => l.positive != sign) using Nat.strongRecOn generalizing c with
  | ind n ih =>
      intro θ
      by_cases signed : c.Signed sign
      · obtain ⟨l, listed, outside⟩ := maximal.prop c member signed θ
        exact ⟨l, listed, holds_truth_iff.mpr (iff_of_false outside (not_not_intro (signed l listed)))⟩
      · unfold Clause.Signed at signed
        push Not at signed
        obtain ⟨p, listed, other⟩ := signed
        by_cases untrue : p.atom.subst θ ∈ atoms
        · exact ⟨p, listed, holds_truth_iff.mpr (iff_of_true untrue other)⟩
        · obtain ⟨d, inside, signed, σ, q, qs, pickedQ, depends, rest⟩ :=
            factored.exists_producer maximal untrue
          have occurs : q ∈ d.literals := (perm_of_mem_picks pickedQ).subset List.mem_cons_self
          have differ : c ≠ d := by
            rintro rfl
            exact other (signed p listed)
          have opposite : p.positive ≠ q.positive := by
            rw [signed q occurs]
            exact other
          obtain ⟨ps, pickedP⟩ := exists_mem_picks listed
          obtain ⟨r, kept, counts, ρ, instances⟩ :=
            saturated.exists_instance member inside differ pickedP pickedQ opposite depends.symm
          have fewer : r.literals.countP (fun l => l.positive != sign) < n := by
            have none : qs.countP (fun l => l.positive != sign) = 0 := by
              rw [List.countP_eq_zero]
              intro l another
              simp [signed l ((sublist_of_mem_picks pickedQ).subset another)]
            have bound := counts (· != sign)
            rw [← count, ← (perm_of_mem_picks pickedP).countP_eq, List.countP_cons]
            simp only [bne_iff_ne, ne_eq, other, not_false_eq_true, if_true]
            omega
          obtain ⟨l, own, holds⟩ := ih _ fewer kept rfl ρ
          obtain ⟨k, left, same⟩ | ⟨k, right, same⟩ := instances l own
          · have inside : k ∈ c.literals := (sublist_of_mem_picks pickedP).subset left
            exact ⟨k, inside, Interpretation.holds_ofAtoms_congr same holds⟩
          · -- the other literals of the producer are untrue
            have known := holds_truth_iff.mp (Interpretation.holds_ofAtoms_congr same holds)
            have sameSign := signed k ((sublist_of_mem_picks pickedQ).subset right)
            exact absurd sameSign (known.mp (rest k right))

end Factored

namespace Search

variable {policy : Policy} {symbols : Symbols} {first : Search} {outcome : Outcome}

end Search

/-- A set is factored if it has the factors of its clauses of one sign: what they become when two of their
literals are unified. -/
theorem factored_of_factors {symbols : Symbols} {sign : Bool} {clauses : Set Clause}
    (factors : ∀ c ∈ clauses, c.Signed sign → ∀ k rest, (k, rest) ∈ picks c.literals → ∀ l ∈ rest, ∀ m,
      Bindings.empty.unify k.atom l.atom = some m →
        ∃ d ∈ clauses, d.Same (.ofLiterals symbols (c.literals.map (Literal.subst m.image)))) :
    Factored sign clauses := by
  intro c member signed k rest picked l another θ merged
  have perm := perm_of_mem_picks picked
  have atoms : k.atom.subst θ = l.atom.subst θ := by
    rw [← Literal.atom_subst, merged, Literal.atom_subst]
  obtain ⟨m, found⟩ := Bindings.solved_empty.exists_unify (Bindings.solvedBy_empty θ) atoms
  have solution := (Bindings.solved_empty.solvedBy_unify_iff found θ).mpr ⟨Bindings.solvedBy_empty θ, atoms⟩
  obtain ⟨d, kept, same⟩ := factors c member signed k rest picked l another m found
  obtain ⟨ρ, renames⟩ := Clause.exists_renames_of_same same
  refine ⟨d, kept, ?_, fun x => θ (ρ x), fun j occurs => ?_⟩
  · -- the first of the two literals is among the rest, once they are unified
    have unified : k.subst m.image = l.subst m.image := by
      apply Literal.ext_atom
      · exact (signed k (perm.subset List.mem_cons_self)).trans
          (signed l (perm.subset (List.mem_cons_of_mem k another))).symm
      · rw [Literal.atom_subst, Literal.atom_subst]
        exact Bindings.solved_empty.apply_unify found
    have within : (Clause.ofLiterals symbols (c.literals.map (Literal.subst m.image))).literals ⊆
        rest.map (Literal.subst m.image) := by
      intro j listed
      obtain ⟨i, inside, rfl⟩ := List.mem_map.mp ((Clause.mem_ofLiterals symbols _).mp listed)
      rcases List.mem_cons.mp (perm.symm.subset inside) with rfl | other
      · exact List.mem_map.mpr ⟨l, another, unified.symm⟩
      · exact List.mem_map_of_mem other
    have fewer := (Clause.nodup_ofLiterals symbols _).length_le_of_subset within
    rw [List.length_map] at fewer
    have size : d.size ≤ rest.length := (Clause.size_eq_of_same same).trans_le fewer
    have length : rest.length + 1 = c.size := perm.length_eq
    omega
  · have made := renames.rename_mem occurs
    rw [Clause.mem_ofLiterals, List.mem_map] at made
    obtain ⟨i, inside, image⟩ := made
    refine ⟨i, inside, ?_⟩
    rw [← Literal.subst_rename, ← image, solution.subst_image]

/-- Where different literals of one sign have no common instance, there is nothing to factor. -/
theorem factored_of_distinct {sign : Bool} {clauses : Set Clause} (nodup : ∀ c ∈ clauses, c.literals.Nodup)
    (distinct : ∀ c ∈ clauses, c.Signed sign → ∀ k ∈ c.literals, ∀ l ∈ c.literals, ∀ θ,
      k.subst θ = l.subst θ → k = l) : Factored sign clauses := by
  intro c member signed k rest picked l another θ merged
  have once := (perm_of_mem_picks picked).nodup_iff.mpr (nodup c member)
  have listed : k ∈ c.literals := (perm_of_mem_picks picked).subset List.mem_cons_self
  have inside : l ∈ c.literals := (sublist_of_mem_picks picked).subset another
  have same := distinct c member signed k listed l inside θ merged
  exact absurd (same ▸ another) (List.nodup_cons.mp once).1

namespace Problem

variable {p : Problem} {query : Literal}

/-- An entailed query is refuted if the clauses that come to be known are factored for one sign. -/
theorem exists_refuted_of_factored (policy : Policy) {sign : Bool}
    (factored : Factored sign (Search.everKnown policy p.symbols (p.search query)))
    (entails : Entails.{0} p query) :
    ∃ passes outcome, p.proveFor policy .never passes query = .finished outcome ∧
      outcome.verdict = .refuted := by
  refine exists_refuted_of_models policy (fun saturated => ?_) entails
  obtain ⟨atoms, maximal⟩ := exists_maximal_spares sign saturated.nonempty
  exact ⟨_, fun c member => factored.models saturated maximal member⟩

end Problem

/-! Clauses about the weather that are not factored, and some that are. -/

namespace Weather

open Problem

/-- That a place is wet, or not. -/
def wet (sign : Bool) (place : VarId) : Literal := ⟨sign, 2, [.var place]⟩

@[simp] theorem subst_wet (θ : VarId → Term) (sign : Bool) (x : VarId) :
    (wet sign x).subst θ = ⟨sign, 2, [θ x]⟩ := by
  simp [wet, Literal.subst]

@[simp] theorem rename_wet (ρ : VarId → VarId) (sign : Bool) (x : VarId) :
    (wet sign x).rename ρ = wet sign (ρ x) := subst_wet _ _ _

@[simp] theorem vars_wet (sign : Bool) (x : VarId) : (wet sign x).vars = [x] := by
  simp [wet, Literal.vars, Literal.atom]

/-- Two places, each wet or not. -/
def couple (s t : Bool) (x y : VarId) : LiteralSet := {wet s x, wet t y}

theorem toSet_couple (symbols : Symbols) (s t : Bool) (x y : VarId) :
    (Clause.ofLiterals symbols [wet s x, wet t y]).toSet = couple s t x y := by
  rw [Clause.toSet_ofLiterals]
  ext l
  simp [couple]

theorem toSet_wet (symbols : Symbols) (s : Bool) (x : VarId) :
    (Clause.ofLiterals symbols [wet s x]).toSet = {wet s x} := by
  rw [Clause.toSet_ofLiterals]
  ext l
  simp

/-- What is put before the clauses for the query whether it is sunny in Oslo. -/
def overcast : Literal := ⟨false, 0, [.const 1]⟩

theorem vars_overcast : LiteralSet.vars {overcast} = ∅ := by
  ext x
  simp [LiteralSet.vars, overcast, Literal.vars, Literal.atom]

/-- Nothing that is wet or not clashes with it. -/
theorem not_resolvent_overcast {C R : LiteralSet} (places : ∀ l ∈ C, l.predicate = 2) :
    ¬ Resolvent {overcast} C R := by
  rintro ⟨p, rfl, q, member, -, θ, general, -⟩
  have same := general.unifies
  simp only [Literal.atom, Term.subst_app, Term.app.injEq, places q member] at same
  cases same.1

/-- Of any two places one is wet, and of any two one is not. -/
def weather : Problem :=
  let symbols : Symbols := ⟨#["Sunny", "Oslo", "Wet"], by decide⟩
  ⟨symbols, [.ofLiterals symbols [wet true 0, wet true 1], .ofLiterals symbols [wet false 0, wet false 1]],
    [⟨true, 0, [.const 1]⟩]⟩

/-- Of any two places one is wet; more than that, every place is. -/
def drizzle : Problem :=
  ⟨weather.symbols, [.ofLiterals weather.symbols [wet true 0, wet true 1],
    .ofLiterals weather.symbols [wet true 0]], [⟨true, 0, [.const 1]⟩]⟩

theorem formed_drizzle : drizzle.Formed := by
  intro c member
  simp only [drizzle, List.mem_cons, List.not_mem_nil, or_false] at member
  rcases member with rfl | rfl <;> exact Clause.formed_ofLiterals (by decide)

/-- The clauses of the search for sun in Oslo, if it rains everywhere. -/
def puddles : Set ClauseClass := {⟦{overcast}⟧, ⟦couple true true 0 1⟧, ⟦{wet true 0}⟧}

theorem literals_of_mem_puddles {C : LiteralSet} (member : ⟦C⟧ ∈ puddles) :
    C = {overcast} ∨ ∀ l ∈ C, ∃ x, l = wet true x := by
  have renamed : ∀ {D : LiteralSet}, D.Variant C → (∀ l ∈ D, ∃ x, l = wet true x) →
      ∀ l ∈ C, ∃ x, l = wet true x := by
    rintro D ⟨ρ, -, rfl⟩ all _ ⟨l, inside, rfl⟩
    obtain ⟨x, rfl⟩ := all l inside
    exact ⟨ρ x, rename_wet ρ true x⟩
  rcases member with denial | two | one
  · exact .inl (LiteralSet.Variant.eq_of_ground (Quotient.exact denial).symm vars_overcast)
  · refine .inr (renamed (Quotient.exact two).symm ?_)
    rintro l (rfl | rfl)
    exacts [⟨0, rfl⟩, ⟨1, rfl⟩]
  · refine .inr (renamed (Quotient.exact one).symm ?_)
    rintro l rfl
    exact ⟨0, rfl⟩

theorem resolutionClosed_puddles : ResolutionClosed (drizzle.premises ⟨true, 0, [.const 1]⟩) puddles := by
  refine ⟨fun C member => ?_, fun C D R left right _ apart resolvent => ?_⟩
  · rcases member with rfl | ⟨c, listed, rfl⟩
    · exact .inl rfl
    · simp only [drizzle, List.mem_cons, List.not_mem_nil, or_false, Set.mem_ofPred_eq] at listed
      rcases listed with rfl | rfl
      · exact .inr (.inl (congrArg _ (toSet_couple _ _ _ _ _)))
      · exact .inr (.inr (congrArg _ (toSet_wet _ _ _)))
  · have places : ∀ {C : LiteralSet}, (∀ l ∈ C, ∃ x, l = wet true x) → ∀ l ∈ C, l.predicate = 2 := by
      intro C all l member
      obtain ⟨x, rfl⟩ := all l member
      rfl
    rcases literals_of_mem_puddles left with rfl | wetLeft
    · rcases literals_of_mem_puddles right with rfl | wetRight
      · obtain ⟨p, rfl, q, rfl, opposite, -⟩ := resolvent
        exact absurd rfl opposite
      · exact absurd resolvent (not_resolvent_overcast (places wetRight))
    · rcases literals_of_mem_puddles right with rfl | wetRight
      · exact absurd resolvent.symm (not_resolvent_overcast (places wetLeft))
      · obtain ⟨p, inLeft, q, inRight, opposite, -⟩ := resolvent
        obtain ⟨x, rfl⟩ := wetLeft p inLeft
        obtain ⟨y, rfl⟩ := wetRight q inRight
        exact absurd rfl opposite

theorem exists_saturated_drizzle : ∃ outcome, drizzle.Ends .standard ⟨true, 0, [.const 1]⟩ outcome ∧
    outcome.verdict = .saturated := by
  have within := (isLeast_derivable (drizzle.premises ⟨true, 0, [.const 1]⟩)).2 resolutionClosed_puddles
  have finite : puddles.Finite := by simp [puddles]
  have nonempty : ⟦∅⟧ ∉ puddles := by
    rintro (empty | empty | empty)
    · exact Set.singleton_ne_empty _ (LiteralSet.Variant.eq_empty (Quotient.exact empty.symm))
    · exact (Set.insert_nonempty _ _).ne_empty (LiteralSet.Variant.eq_empty (Quotient.exact empty.symm))
    · exact Set.singleton_ne_empty _ (LiteralSet.Variant.eq_empty (Quotient.exact empty.symm))
  obtain ⟨outcome, ends, saturated, -⟩ := exists_saturated_of_finite formed_drizzle (by decide) .standard
    (finite.subset within) fun derived => nonempty (within derived)
  exact ⟨outcome, ends, saturated⟩

end Weather

end Refutation
