import Mathlib.Data.Set.Card
import Refutation.Proofs.Formed
import Refutation.Proofs.StandardizedApart

/-!
Resolution on sets of literals. Sets that differ in the names of variables only are variants. A
resolvent of two sets leaves out a literal of each, of opposite sign, and applies a most general unifier
of their atoms to the rest. What can be derived from some sets in so many steps, one upon the other,
does not depend on the names of variables: resolvents of variants are variants, whichever most general
unifier is taken. What the clashes of two clauses leave are exactly the resolvents of their literals.
-/

namespace Refutation

namespace Term

theorem fixed_of_subst_eq_self {θ : VarId → Term} (t : Term) (same : t.subst θ = t) :
    ∀ x ∈ t.vars, θ x = .var x := by
  induction t using Term.induct with
  | const c => simp
  | var x => simpa using same
  | app f args ih =>
      rw [subst_app, app.injEq, ← List.map_id args, List.map_map, List.map_inj_left] at same
      intro x occurs
      rw [vars_app, List.mem_flatMap] at occurs
      obtain ⟨t, member, inside⟩ := occurs
      exact ih t member (same.2 t member) x inside

/-- Only a variable has a variable for an instance. -/
theorem exists_eq_var_of_subst {θ : VarId → Term} {t : Term} {x : VarId} (same : t.subst θ = .var x) :
    ∃ y, t = .var y := by
  cases t with
  | const c => simp at same
  | var y => exact ⟨y, rfl⟩
  | app f args => simp at same

end Term

theorem Literal.subst_rename (τ : VarId → VarId) (θ : VarId → Term) (l : Literal) :
    (l.rename τ).subst θ = l.subst fun x => θ (τ x) := by
  rw [rename, subst_subst]
  simp only [Term.subst_var]

theorem Literal.fixed_of_subst_eq_self {θ : VarId → Term} (l : Literal) (same : l.subst θ = l) :
    ∀ x ∈ l.vars, θ x = .var x := by
  apply l.atom.fixed_of_subst_eq_self
  rw [← atom_subst, same]

/-- A clause as the set of its literals. -/
abbrev LiteralSet := Set Literal

namespace LiteralSet

variable {C D E : LiteralSet} {ρ σ : VarId → VarId}

def vars (C : LiteralSet) : Set VarId := {x | ∃ l ∈ C, x ∈ l.vars}

/-- Whether one set becomes the other when its variables are renamed, no two of them to one. -/
def Variant (C D : LiteralSet) : Prop := ∃ ρ : VarId → VarId, Set.InjOn ρ C.vars ∧ Literal.rename ρ '' C = D

/-- Substitutions that lead from one set to the other and back rename variables only. -/
theorem variant_of_instances {α β : VarId → Term}
    (forth : ∀ l ∈ C, l.subst α ∈ D ∧ (l.subst α).subst β = l) (back : ∀ k ∈ D, ∃ l ∈ C, l.subst α = k) :
    C.Variant D := by
  have returns : ∀ x ∈ C.vars, (α x).subst β = .var x := by
    rintro x ⟨l, member, occurs⟩
    have fixed := (forth l member).2
    rw [Literal.subst_subst] at fixed
    exact l.fixed_of_subst_eq_self fixed x occurs
  have renames : ∀ x, ∃ y, x ∈ C.vars → α x = .var y := by
    intro x
    by_cases occurs : x ∈ C.vars
    · obtain ⟨y, image⟩ := Term.exists_eq_var_of_subst (returns x occurs)
      exact ⟨y, fun _ => image⟩
    · exact ⟨x, fun inside => absurd inside occurs⟩
  choose ρ images using renames
  have renamed : ∀ l ∈ C, l.rename ρ = l.subst α := by
    intro l member
    apply l.subst_congr
    intro x occurs
    exact (images x ⟨l, member, occurs⟩).symm
  refine ⟨ρ, fun x left y right same => ?_, ?_⟩
  · have sides : (α x).subst β = (α y).subst β := by rw [images x left, images y right, same]
    rw [returns x left, returns y right] at sides
    exact Term.var.inj sides
  · ext k
    constructor
    · rintro ⟨l, member, rfl⟩
      rw [renamed l member]
      exact (forth l member).1
    · intro member
      obtain ⟨l, inside, rfl⟩ := back k member
      exact ⟨l, inside, renamed l inside⟩

theorem undo_rename (back : ∀ x ∈ C.vars, σ (ρ x) = x) {l : Literal} (member : l ∈ C) :
    (l.rename ρ).rename σ = l := by
  rw [Literal.rename_rename]
  exact l.rename_eq_self fun x occurs => back x ⟨l, member, occurs⟩

theorem exists_inverse {X : Set VarId} (injective : Set.InjOn ρ X) :
    ∃ σ : VarId → VarId, ∀ x ∈ X, σ (ρ x) = x :=
  ⟨Function.invFunOn ρ X, fun _ member => injective.leftInvOn_invFunOn member⟩

theorem Variant.refl (C : LiteralSet) : C.Variant C := by
  refine ⟨id, Set.injOn_id _, ?_⟩
  have fixed : ∀ l : Literal, l.rename id = l := fun l => l.rename_eq_self fun _ _ => rfl
  simp [fixed]

theorem Variant.symm (variant : C.Variant D) : D.Variant C := by
  obtain ⟨ρ, injective, rfl⟩ := variant
  obtain ⟨σ, back⟩ := exists_inverse injective
  refine variant_of_instances (α := fun y => .var (σ y)) (β := fun x => .var (ρ x)) ?_ ?_
  · rintro _ ⟨l, member, rfl⟩
    have undone : (l.rename ρ).subst (fun y => .var (σ y)) = l := undo_rename back member
    rw [undone]
    exact ⟨member, rfl⟩
  · intro l member
    exact ⟨l.rename ρ, ⟨l, member, rfl⟩, undo_rename back member⟩

theorem mem_vars_rename {x : VarId} (occurs : x ∈ C.vars) : ρ x ∈ vars (Literal.rename ρ '' C) := by
  obtain ⟨l, member, inside⟩ := occurs
  refine ⟨l.rename ρ, ⟨l, member, rfl⟩, ?_⟩
  rw [Literal.vars_rename]
  exact List.mem_map_of_mem inside

theorem Variant.trans (left : C.Variant D) (right : D.Variant E) : C.Variant E := by
  obtain ⟨ρ, injective, rfl⟩ := left
  obtain ⟨σ, injective', rfl⟩ := right
  refine ⟨fun x => σ (ρ x), fun x inX y inY same => ?_, ?_⟩
  · exact injective inX inY (injective' (mem_vars_rename inX) (mem_vars_rename inY) same)
  · rw [Set.image_image]
    exact Set.image_congr fun l _ => (Literal.rename_rename ρ σ l).symm

instance variants : Setoid LiteralSet := ⟨Variant, .refl, .symm, .trans⟩

theorem Variant.eq_empty (variant : C.Variant ∅) : C = ∅ := by
  obtain ⟨ρ, -, image⟩ := variant
  exact Set.image_eq_empty.mp image

theorem subst_of_ground (ground : C.vars = ∅) (θ : VarId → Term) {l : Literal} (member : l ∈ C) :
    l.subst θ = l := by
  apply l.subst_eq_self
  intro x occurs
  have inside : x ∈ C.vars := ⟨l, member, occurs⟩
  rw [ground] at inside
  exact absurd inside (Set.notMem_empty x)

theorem image_subst_of_ground (ground : C.vars = ∅) (θ : VarId → Term) : Literal.subst θ '' C = C := by
  rw [Set.image_congr fun l member => subst_of_ground ground θ member, Set.image_id']

/-- A set without variables has no other variant. -/
theorem Variant.eq_of_ground (variant : C.Variant D) (ground : C.vars = ∅) : D = C := by
  obtain ⟨ρ, -, rfl⟩ := variant
  exact image_subst_of_ground ground _

/-- Whether two sets have no variable in common. -/
def Apart (C D : LiteralSet) : Prop := ∀ x ∈ C.vars, x ∉ D.vars

theorem Apart.symm (apart : C.Apart D) : D.Apart C := fun x right left => apart x left right

/-- Injective renamings of variables that are apart, to variables that are apart, are parts of one. -/
theorem exists_joint_renaming {X Y : Set VarId} (injective : Set.InjOn ρ X) (injective' : Set.InjOn σ Y)
    (apart : ∀ x ∈ X, x ∉ Y) (apart' : ∀ x ∈ X, ∀ y ∈ Y, ρ x ≠ σ y) :
    ∃ τ : VarId → VarId, Set.InjOn τ (X ∪ Y) ∧ Set.EqOn τ ρ X ∧ Set.EqOn τ σ Y := by
  classical
  have onX : Set.EqOn (fun x => if x ∈ X then ρ x else σ x) ρ X := fun x member => if_pos member
  have onY : Set.EqOn (fun x => if x ∈ X then ρ x else σ x) σ Y := fun x member =>
    if_neg fun shared => apart x shared member
  refine ⟨fun x => if x ∈ X then ρ x else σ x, ?_, onX, onY⟩
  rw [Set.injOn_union (Set.disjoint_left.mpr apart)]
  refine ⟨injective.congr onX.symm, injective'.congr onY.symm, fun x inX y inY same => ?_⟩
  exact apart' x inX y inY ((onX inX).symm.trans (same.trans (onY inY)))

/-- Variants of two sets without common variables arise by one renaming of both. -/
theorem exists_common_renaming {C₁ D₁ : LiteralSet} (left : C.Variant C₁) (right : D.Variant D₁)
    (apart : C.Apart D) (apart' : C₁.Apart D₁) :
    ∃ τ : VarId → VarId, Set.InjOn τ (C.vars ∪ D.vars) ∧ Literal.rename τ '' C = C₁ ∧
      Literal.rename τ '' D = D₁ := by
  obtain ⟨ρ, injective, rfl⟩ := left
  obtain ⟨σ, injective', rfl⟩ := right
  obtain ⟨τ, joint, onC, onD⟩ := exists_joint_renaming injective injective' apart fun x inC y inD same =>
    apart' _ (mem_vars_rename inC) (same ▸ mem_vars_rename inD)
  refine ⟨τ, joint, ?_, ?_⟩
  · exact Set.image_congr fun l member => l.rename_congr fun x occurs => onC ⟨l, member, occurs⟩
  · exact Set.image_congr fun l member => l.rename_congr fun x occurs => onD ⟨l, member, occurs⟩

end LiteralSet

/-- Clauses up to the names of variables. -/
abbrev ClauseClass := Quotient LiteralSet.variants

/-- Whether a substitution makes two terms equal and every other one that does factors through it. -/
structure MostGeneral (θ : VarId → Term) (s t : Term) : Prop where
  unifies : s.subst θ = t.subst θ
  factors : ∀ σ : VarId → Term, s.subst σ = t.subst σ → ∃ τ : VarId → Term, ∀ x, σ x = (θ x).subst τ

theorem MostGeneral.symm {θ : VarId → Term} {s t : Term} (general : MostGeneral θ s t) : MostGeneral θ t s :=
  ⟨general.unifies.symm, fun σ equal => general.factors σ equal.symm⟩

/-- The bindings that unification finds are most general. -/
theorem Bindings.mostGeneral_of_unify {m : Bindings} {s t : Term} (found : Bindings.empty.unify s t = some m) :
    MostGeneral m.image s t := by
  refine ⟨solved_empty.apply_unify found, fun σ equal => ⟨σ, fun x => ?_⟩⟩
  have solution := (solved_empty.solvedBy_unify_iff found σ).mpr ⟨solvedBy_empty σ, equal⟩
  have read := solution.subst_apply (.var x)
  rw [apply_var, Term.subst_var] at read
  exact read.symm

/-- Whether a set consists of two others, one literal of each left out, under a most general unifier of
the two, which are of opposite sign. -/
def Resolvent (C D R : LiteralSet) : Prop :=
  ∃ p ∈ C, ∃ q ∈ D, p.positive ≠ q.positive ∧ ∃ θ, MostGeneral θ p.atom q.atom ∧
    R = Literal.subst θ '' (C \ {p} ∪ D \ {q})

namespace Resolvent

open LiteralSet

variable {C D R : LiteralSet}

theorem symm (resolvent : Resolvent C D R) : Resolvent D C R := by
  obtain ⟨p, left, q, right, opposite, θ, general, rfl⟩ := resolvent
  exact ⟨q, right, p, left, opposite.symm, θ, general.symm, by rw [Set.union_comm]⟩

theorem subst_undo {τ σ : VarId → VarId} (back : ∀ x ∈ C.vars ∪ D.vars, σ (τ x) = x) (θ : VarId → Term)
    {l : Literal} (member : l ∈ C ∪ D) : (l.rename τ).subst (fun y => θ (σ y)) = l.subst θ := by
  rw [Literal.subst_rename]
  apply l.subst_congr
  intro x occurs
  rw [back x (member.imp (fun inC => ⟨l, inC, occurs⟩) fun inD => ⟨l, inD, occurs⟩)]

/-- A unifier of two literals, read through the names of their copies, unifies these. -/
theorem unifies_renamed {τ σ : VarId → VarId} {p q : Literal} {θ : VarId → Term}
    (back : ∀ x ∈ C.vars ∪ D.vars, σ (τ x) = x) (left : p ∈ C) (right : q ∈ D)
    (general : MostGeneral θ p.atom q.atom) :
    (p.rename τ).atom.subst (fun y => θ (σ y)) = (q.rename τ).atom.subst fun y => θ (σ y) := by
  rw [← Literal.atom_subst, ← Literal.atom_subst, subst_undo back θ (.inl left),
    subst_undo back θ (.inr right), Literal.atom_subst, Literal.atom_subst]
  exact general.unifies

theorem image_rename_diff {τ : VarId → VarId} {p : Literal} (injective : Set.InjOn τ C.vars) (member : p ∈ C) :
    Literal.rename τ '' (C \ {p}) = Literal.rename τ '' C \ {p.rename τ} := by
  obtain ⟨σ, back⟩ := exists_inverse injective
  ext k
  constructor
  · rintro ⟨l, ⟨inside, other⟩, rfl⟩
    refine ⟨⟨l, inside, rfl⟩, fun same => other ?_⟩
    rw [Set.mem_singleton_iff] at same ⊢
    rw [← undo_rename back inside, same, undo_rename back member]
  · rintro ⟨⟨l, inside, rfl⟩, other⟩
    exact ⟨l, ⟨inside, fun same => other (congrArg (Literal.rename τ) same)⟩, rfl⟩

/-- Resolvents of sets and of their renamed copies are variants, whichever most general unifiers are
taken: each unifier factors through the other. -/
theorem variant_of_renamed {τ σ : VarId → VarId} {p q : Literal} {θ θ' : VarId → Term} {rest : LiteralSet}
    (back : ∀ x ∈ C.vars ∪ D.vars, σ (τ x) = x) (left : p ∈ C) (right : q ∈ D) (within : rest ⊆ C ∪ D)
    (general : MostGeneral θ p.atom q.atom) (general' : MostGeneral θ' (p.rename τ).atom (q.rename τ).atom) :
    Variant (Literal.subst θ '' rest) (Literal.subst θ' '' (Literal.rename τ '' rest)) := by
  -- the unifier of the copies, read on the originals, and the other way round
  obtain ⟨α, ahead⟩ := general.factors (fun x => θ' (τ x)) (by
    rw [← Literal.atom_subst, ← Literal.atom_subst, ← p.subst_rename τ θ', ← q.subst_rename τ θ',
      Literal.atom_subst, Literal.atom_subst]
    exact general'.unifies)
  obtain ⟨β, behind⟩ := general'.factors (fun y => θ (σ y)) (unifies_renamed back left right general)
  have forth : ∀ l : Literal, (l.subst θ).subst α = (l.rename τ).subst θ' := by
    intro l
    rw [Literal.subst_subst, Literal.subst_rename]
    simp only [← ahead]
  have home : ∀ l ∈ C ∪ D, ((l.rename τ).subst θ').subst β = l.subst θ := by
    intro l member
    rw [Literal.subst_subst]
    simp only [← behind]
    exact subst_undo back θ member
  refine variant_of_instances (α := α) (β := β) ?_ ?_
  · rintro _ ⟨l, member, rfl⟩
    rw [forth, home l (within member)]
    exact ⟨⟨l.rename τ, ⟨l, member, rfl⟩, rfl⟩, rfl⟩
  · rintro _ ⟨_, ⟨l, member, rfl⟩, rfl⟩
    exact ⟨l.subst θ, ⟨l, member, rfl⟩, forth l⟩

/-- Variants of two sets have a clash for each of theirs, and what it leaves is a variant. -/
theorem exists_clash {C₁ D₁ : LiteralSet} (resolvent : Resolvent C D R) (left : C.Variant C₁)
    (right : D.Variant D₁) (apart : C.Apart D) (apart' : C₁.Apart D₁) :
    ∃ p ∈ C₁, ∃ q ∈ D₁, p.positive ≠ q.positive ∧ (∃ σ : VarId → Term, p.atom.subst σ = q.atom.subst σ) ∧
      ∀ θ, MostGeneral θ p.atom q.atom → R.Variant (Literal.subst θ '' (C₁ \ {p} ∪ D₁ \ {q})) := by
  obtain ⟨τ, injective, rfl, rfl⟩ := exists_common_renaming left right apart apart'
  obtain ⟨σ, back⟩ := exists_inverse injective
  obtain ⟨p, inC, q, inD, opposite, θ, general, rfl⟩ := resolvent
  refine ⟨p.rename τ, ⟨p, inC, rfl⟩, q.rename τ, ⟨q, inD, rfl⟩, opposite,
    ⟨fun y => θ (σ y), unifies_renamed back inC inD general⟩, fun θ' general' => ?_⟩
  rw [← image_rename_diff (injective.mono Set.subset_union_left) inC,
    ← image_rename_diff (injective.mono Set.subset_union_right) inD, ← Set.image_union]
  exact variant_of_renamed back inC inD (Set.union_subset_union Set.sdiff_subset Set.sdiff_subset) general
    general'

end Resolvent

/-- What can be derived from some sets, and how deep the derivation is. A given set has depth zero; a
resolvent of copies without common variables, of two sets that are no variants, is one deeper than both. -/
inductive Derived (given : Set LiteralSet) : Nat → LiteralSet → Prop
  | given {C : LiteralSet} : C ∈ given → Derived given 0 C
  | resolvent {m n : Nat} {C D C₁ D₁ R : LiteralSet} : Derived given m C → Derived given n D →
      ¬ C.Variant D → C.Variant C₁ → D.Variant D₁ → C₁.Apart D₁ → Resolvent C₁ D₁ R →
      Derived given (max m n + 1) R

/-- All that can be derived, up to the names of variables. -/
def derivable (given : Set LiteralSet) : Set ClauseClass := {κ | ∃ n C, Derived given n C ∧ ⟦C⟧ = κ}

/-- Whether a family has the given sets and the resolvents of copies without common variables of any two
of its members. -/
structure ResolutionClosed (given : Set LiteralSet) (family : Set ClauseClass) : Prop where
  given : ∀ C ∈ given, ⟦C⟧ ∈ family
  resolvent : ∀ C D R : LiteralSet, ⟦C⟧ ∈ family → ⟦D⟧ ∈ family → ¬ C.Variant D →
    C.Apart D → Resolvent C D R → ⟦R⟧ ∈ family

theorem mem_derivable_iff {given : Set LiteralSet} {C : LiteralSet} :
    ⟦C⟧ ∈ derivable given ↔ ∃ n D, Derived given n D ∧ D.Variant C := by
  constructor
  · rintro ⟨n, D, derived, same⟩
    exact ⟨n, D, derived, Quotient.exact same⟩
  · rintro ⟨n, D, derived, variant⟩
    exact ⟨n, D, derived, Quotient.sound variant⟩

/-- No smaller family is closed under resolution. -/
theorem isLeast_derivable (given : Set LiteralSet) :
    IsLeast {family | ResolutionClosed given family} (derivable given) := by
  refine ⟨⟨fun C member => ⟨0, C, .given member, rfl⟩, ?_⟩, ?_⟩
  · intro C D R left right differ apart resolvent
    obtain ⟨m, C₀, derivedC, variantC⟩ := mem_derivable_iff.mp left
    obtain ⟨n, D₀, derivedD, variantD⟩ := mem_derivable_iff.mp right
    have differ₀ : ¬ C₀.Variant D₀ := fun same => differ (variantC.symm.trans (same.trans variantD))
    exact ⟨_, R, .resolvent derivedC derivedD differ₀ variantC variantD apart resolvent, rfl⟩
  · intro family closed κ member
    obtain ⟨n, C, derived, rfl⟩ := member
    induction derived with
    | given member => exact closed.given _ member
    | @resolvent m n C D C₁ D₁ R _ _ differ left right apart resolvent ihC ihD =>
        have classC : (⟦C⟧ : ClauseClass) = ⟦C₁⟧ := Quotient.sound left
        have classD : (⟦D⟧ : ClauseClass) = ⟦D₁⟧ := Quotient.sound right
        exact closed.resolvent C₁ D₁ R (classC ▸ ihC) (classD ▸ ihD)
          (fun same => differ (left.trans (same.trans right.symm))) apart resolvent

/-- What can be derived from some sets can be derived, as deep, where they have variants. -/
theorem Derived.of_variants {small large : Set LiteralSet} (more : ∀ C ∈ small, ∃ D ∈ large, D.Variant C)
    {n : Nat} {C : LiteralSet} (derived : Derived small n C) : ∃ D, Derived large n D ∧ D.Variant C := by
  induction derived with
  | given member =>
      obtain ⟨D, inside, variant⟩ := more _ member
      exact ⟨D, .given inside, variant⟩
  | @resolvent m n C D C₁ D₁ R _ _ differ left right apart resolvent ihC ihD =>
      obtain ⟨C₀, derivedC, variantC⟩ := ihC
      obtain ⟨D₀, derivedD, variantD⟩ := ihD
      have differ₀ : ¬ C₀.Variant D₀ := fun same => differ (variantC.symm.trans (same.trans variantD))
      refine ⟨R, ?_, .refl R⟩
      exact .resolvent derivedC derivedD differ₀ (variantC.trans left) (variantD.trans right) apart resolvent

namespace Clause

open LiteralSet

variable {symbols : Symbols} {c d r : Clause}

def toSet (c : Clause) : LiteralSet := {l | l ∈ c.literals}

theorem vars_toSet (c : Clause) : c.toSet.vars = {x | x ∈ c.vars} := by
  ext x
  simp [LiteralSet.vars, toSet, Clause.vars]

theorem toSet_ofLiterals (symbols : Symbols) (literals : List Literal) :
    (ofLiterals symbols literals).toSet = {l | l ∈ literals} := by
  ext l
  exact mem_ofLiterals symbols literals

theorem toSet_eq_empty_iff : c.toSet = ∅ ↔ c.isEmpty = true := by
  rw [isEmpty, List.isEmpty_iff, Set.eq_empty_iff_forall_notMem, List.eq_nil_iff_forall_not_mem]
  rfl

theorem Apart.toSet (apart : c.Apart d) : c.toSet.Apart d.toSet := by
  rw [LiteralSet.Apart, vars_toSet, vars_toSet]
  exact apart

theorem variant_of_same (same : c.Same d) : c.toSet.Variant d.toSet := by
  obtain ⟨ρ, renames⟩ := exists_renames_of_same same
  refine ⟨ρ, ?_, renames.literals⟩
  rw [vars_toSet]
  exact renames.vars.injOn

/-- Formed clauses are the same exactly if their sets of literals are variants. -/
theorem Formed.same_iff_variant (left : c.Formed symbols) (right : d.Formed symbols) :
    c.Same d ↔ c.toSet.Variant d.toSet := by
  refine ⟨variant_of_same, ?_⟩
  rintro ⟨ρ, injective, image⟩
  rw [vars_toSet] at injective
  have renames := renames_map_of_injOn injective
  have members : ∀ l, l ∈ c.literals.map (Literal.rename ρ) ↔ l ∈ d.literals := by
    intro l
    rw [List.mem_map]
    exact Set.ext_iff.mp image l
  exact left.same_of_renames right (renames.trans (Renames.of_mem_iff members))

end Clause

/-- The literals that a clash leaves of the two clauses. -/
def Clash.rest (clash : Clash) : LiteralSet := {l | l ∈ clash.leftRest ∨ l ∈ clash.rightRest}

theorem Clash.toSet_resolvent {symbols : Symbols} {clash : Clash} {r : Clause}
    (found : clash.resolvent? symbols = some r) :
    ∃ m, Bindings.empty.unify clash.left.atom clash.right.atom = some m ∧
      r.toSet = Literal.subst m.image '' clash.rest := by
  obtain ⟨-, m, unified, rfl⟩ := resolvent?_eq_some_iff.mp found
  refine ⟨m, unified, ?_⟩
  rw [Clause.toSet_ofLiterals]
  ext k
  simp only [rest, Set.mem_ofPred_eq, List.mem_map, List.mem_append, Set.mem_image]

namespace Clause

open LiteralSet

variable {symbols : Symbols} {c d r : Clause}

theorem mem_rest_iff {p l : Literal} {rest : List Literal} (distinct : c.literals.Nodup)
    (picked : (p, rest) ∈ picks c.literals) : l ∈ rest ↔ l ∈ c.toSet \ {p} := by
  have perm := perm_of_mem_picks picked
  have absent : p ∉ rest := (List.nodup_cons.mp (perm.nodup_iff.mpr distinct)).1
  have members : l ∈ c.literals ↔ l = p ∨ l ∈ rest := by rw [← perm.mem_iff, List.mem_cons]
  show l ∈ rest ↔ l ∈ c.literals ∧ l ≠ p
  rw [members]
  by_cases same : l = p
  · simp [same, absent]
  · simp [same]

theorem rest_of_mem_clashes {clash : Clash} (distinctC : c.literals.Nodup) (distinctD : d.literals.Nodup)
    (inside : clash ∈ c.clashes d) : clash.rest = c.toSet \ {clash.left} ∪ d.toSet \ {clash.right} := by
  obtain ⟨pickedC, pickedD, -⟩ := mem_clashes_iff.mp inside
  ext l
  simp only [Clash.rest, Set.mem_ofPred_eq, Set.mem_union, mem_rest_iff distinctC pickedC,
    mem_rest_iff distinctD pickedD]

theorem mem_of_mem_clashes {clash : Clash} (inside : clash ∈ c.clashes d) :
    clash.left ∈ c.toSet ∧ clash.right ∈ d.toSet := by
  obtain ⟨pickedC, pickedD, -⟩ := mem_clashes_iff.mp inside
  exact ⟨(perm_of_mem_picks pickedC).subset List.mem_cons_self,
    (perm_of_mem_picks pickedD).subset List.mem_cons_self⟩

theorem resolvent_of_clash {clash : Clash} (distinctC : c.literals.Nodup) (distinctD : d.literals.Nodup)
    (inside : clash ∈ c.clashes d) (found : clash.resolvent? symbols = some r) :
    Resolvent c.toSet d.toSet r.toSet := by
  obtain ⟨m, unified, rest⟩ := Clash.toSet_resolvent found
  rw [rest_of_mem_clashes distinctC distinctD inside] at rest
  obtain ⟨left, right⟩ := mem_of_mem_clashes inside
  exact ⟨clash.left, left, clash.right, right, (mem_clashes_iff.mp inside).2.2, m.image,
    Bindings.mostGeneral_of_unify unified, rest⟩

/-- Resolvents of variants of two clauses are left, up to the names of variables, by a clash of them. -/
theorem exists_clash_of_resolvent {C D R : LiteralSet} (distinctC : c.literals.Nodup)
    (distinctD : d.literals.Nodup) (left : C.Variant c.toSet) (right : D.Variant d.toSet)
    (apart : C.Apart D) (apart' : c.Apart d) (resolvent : Resolvent C D R) (symbols : Symbols) :
    ∃ clash ∈ c.clashes d, ∃ bare, clash.resolvent? symbols = some bare ∧ R.Variant bare.toSet := by
  obtain ⟨p, inC, q, inD, opposite, ⟨σ, equal⟩, alike⟩ := resolvent.exists_clash left right apart apart'.toSet
  obtain ⟨ps, pickedC⟩ := exists_mem_picks inC
  obtain ⟨qs, pickedD⟩ := exists_mem_picks inD
  have inside : (⟨p, ps, q, qs⟩ : Clash) ∈ c.clashes d := mem_clashes_iff.mpr ⟨pickedC, pickedD, opposite⟩
  obtain ⟨bare, found, -⟩ := Clash.exists_resolvent ⟨p, ps, q, qs⟩ symbols equal
  obtain ⟨m, unified, rest⟩ := Clash.toSet_resolvent found
  refine ⟨_, inside, bare, found, ?_⟩
  rw [rest, rest_of_mem_clashes distinctC distinctD inside]
  exact alike m.image (Bindings.mostGeneral_of_unify unified)

end Clause

namespace Problem

/-- The sets of literals from which a refutation of the query has to derive the empty set: the negated
query and the clauses of the problem. -/
def premises (p : Problem) (query : Literal) : Set LiteralSet :=
  insert {query.negate} (Clause.toSet '' {c | c ∈ p.clauses})

theorem mem_premises_iff {p : Problem} {query : Literal} {C : LiteralSet} :
    C ∈ p.premises query ↔ ∃ c ∈ Clause.ofLiterals p.symbols [query.negate] :: p.clauses, c.toSet = C := by
  rw [List.exists_mem_cons_iff, Clause.toSet_ofLiterals]
  simp [premises, eq_comm]

end Problem

end Refutation
