import Refutation.Proofs.Profile
import Refutation.Proofs.Transport

/-!
The numbers of symbols do not matter. A permutation of the numbers takes terms to terms, most general unifiers
to most general unifiers and resolvents to resolvents, so it takes what can be derived from some sets to what
can be derived from their images, as deep. Premises that differ in the numbers of symbols are similar.
-/

namespace Refutation

namespace LiteralSet

variable {C D : LiteralSet}

def renumber (f : SymbolId → SymbolId) (C : LiteralSet) : LiteralSet := Literal.renumber f '' C

theorem vars_renumber (f : SymbolId → SymbolId) (C : LiteralSet) : (C.renumber f).vars = C.vars := by
  ext x
  simp [vars, renumber]

theorem Variant.renumber (variant : C.Variant D) (f : SymbolId → SymbolId) :
    (C.renumber f).Variant (D.renumber f) := by
  obtain ⟨ρ, injective, rfl⟩ := variant
  refine ⟨ρ, by rwa [vars_renumber], ?_⟩
  rw [LiteralSet.renumber, LiteralSet.renumber, Set.image_image, Set.image_image]
  exact Set.image_congr fun l _ => (l.renumber_rename f ρ).symm

theorem Apart.renumber (apart : C.Apart D) (f : SymbolId → SymbolId) : (C.renumber f).Apart (D.renumber f) := by
  rwa [Apart, vars_renumber, vars_renumber]

end LiteralSet

/-- Clauses up to the names of variables, with the numbers of all symbols replaced. -/
def ClauseClass.renumber (f : SymbolId → SymbolId) : ClauseClass → ClauseClass :=
  Quotient.map (LiteralSet.renumber f) fun _ _ variant => LiteralSet.Variant.renumber variant f

section Permutation

open LiteralSet

variable (π : Equiv.Perm SymbolId) {C D R : LiteralSet} {given : Set LiteralSet} {n k : Nat}

theorem Term.renumber_symm (t : Term) : (t.renumber π).renumber π.symm = t := by
  rw [renumber_renumber]
  simp only [Equiv.symm_apply_apply, renumber_id]

theorem Literal.renumber_symm (l : Literal) : (l.renumber π).renumber π.symm = l := by
  rw [renumber_renumber]
  simp only [Equiv.symm_apply_apply, renumber_id]

theorem Literal.renumber_injective : Function.Injective (Literal.renumber π) :=
  Function.LeftInverse.injective (renumber_symm π)

theorem LiteralSet.renumber_symm (C : LiteralSet) : (C.renumber π).renumber π.symm = C := by
  rw [renumber, renumber, Set.image_image]
  simp only [Literal.renumber_symm, Set.image_id']

theorem LiteralSet.variant_renumber_iff : (C.renumber π).Variant (D.renumber π) ↔ C.Variant D := by
  refine ⟨fun variant => ?_, fun variant => variant.renumber π⟩
  have back := variant.renumber π.symm
  rwa [renumber_symm, renumber_symm] at back

/-- A unifier of the images, brought back, unifies the terms, so it factors through any most general one. -/
theorem MostGeneral.renumber {θ : VarId → Term} {s t : Term} (general : MostGeneral θ s t) :
    MostGeneral (fun x => (θ x).renumber π) (s.renumber π) (t.renumber π) := by
  refine ⟨?_, fun σ equal => ?_⟩
  · rw [← Term.renumber_subst, ← Term.renumber_subst, general.unifies]
  · -- σ with the old numbers unifies the old terms
    have back := congrArg (Term.renumber π.symm) equal
    rw [Term.renumber_subst, Term.renumber_subst, Term.renumber_symm, Term.renumber_symm] at back
    obtain ⟨τ, factors⟩ := general.factors _ back
    refine ⟨fun x => (τ x).renumber π, fun x => ?_⟩
    rw [← Term.renumber_subst, ← factors]
    exact (Term.renumber_symm π.symm (σ x)).symm

theorem Resolvent.renumber (resolvent : Resolvent C D R) :
    Resolvent (C.renumber π) (D.renumber π) (R.renumber π) := by
  obtain ⟨p, left, q, right, opposite, θ, general, rfl⟩ := resolvent
  refine ⟨p.renumber π, ⟨p, left, rfl⟩, q.renumber π, ⟨q, right, rfl⟩, opposite,
    fun x => (θ x).renumber π, ?_, ?_⟩
  · rw [Literal.atom_renumber, Literal.atom_renumber]
    exact general.renumber π
  · have injective := Literal.renumber_injective π
    rw [LiteralSet.renumber, LiteralSet.renumber, LiteralSet.renumber, ← Set.image_singleton, ← Set.image_singleton,
      ← Set.image_sdiff injective, ← Set.image_sdiff injective, ← Set.image_union, Set.image_image, Set.image_image]
    exact Set.image_congr fun l _ => l.renumber_subst π θ

theorem Derived.renumber (derived : Derived given n C) :
    Derived (LiteralSet.renumber π '' given) n (C.renumber π) := by
  induction derived with
  | given member => exact .given ⟨_, member, rfl⟩
  | resolvent _ _ differ left right apart resolvent ihC ihD =>
      exact .resolvent ihC ihD (mt (variant_renumber_iff π).mp differ) (left.renumber π) (right.renumber π)
        (apart.renumber π) (resolvent.renumber π)

theorem WithinDepth.renumber (within : WithinDepth given k C) :
    WithinDepth (LiteralSet.renumber π '' given) k (C.renumber π) := by
  obtain ⟨n, bound, D, derived, variant⟩ := within
  exact ⟨n, bound, D.renumber π, derived.renumber π, variant.renumber π⟩

theorem withinDepth_renumber_iff :
    WithinDepth (LiteralSet.renumber π '' given) k (C.renumber π) ↔ WithinDepth given k C := by
  refine ⟨fun within => ?_, fun within => within.renumber π⟩
  have back := within.renumber π.symm
  rw [renumber_symm, Set.image_image] at back
  simpa only [renumber_symm, Set.image_id'] using back

theorem ClauseClass.renumber_injective : Function.Injective (ClauseClass.renumber π) := by
  refine Function.LeftInverse.injective (g := ClauseClass.renumber π.symm) fun κ => ?_
  induction κ using Quotient.inductionOn with
  | h C => exact congrArg (Quotient.mk variants) (LiteralSet.renumber_symm π C)

theorem derivableWithin_renumber :
    derivableWithin (LiteralSet.renumber π '' given) k = ClauseClass.renumber π '' derivableWithin given k := by
  ext κ
  constructor
  · rintro ⟨C, within, rfl⟩
    have home : (C.renumber π.symm).renumber π = C := LiteralSet.renumber_symm π.symm C
    rw [← home, withinDepth_renumber_iff] at within
    exact ⟨_, ⟨_, within, rfl⟩, congrArg (Quotient.mk variants) home⟩
  · rintro ⟨_, ⟨C, within, rfl⟩, rfl⟩
    exact ⟨C.renumber π, within.renumber π, rfl⟩

/-- Premises with other numbers for their symbols are similar. -/
theorem Similar.renumber (given : Set LiteralSet) : Similar given (LiteralSet.renumber π '' given) where
  counts := by
    intro k
    rw [derivableWithin_renumber, Set.ncard_image_of_injective _ (ClauseClass.renumber_injective π)]
  empties := by
    intro k
    rw [← withinDepth_renumber_iff π, LiteralSet.renumber, Set.image_empty]

end Permutation

end Refutation
