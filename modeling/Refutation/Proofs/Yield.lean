import Refutation.Proofs.Derivation

/-!
What two clauses yield. The resolvents of two clauses, counted with repetitions and up to the names of
variables, are the same for all renamed copies of the two, as long as these have no variable in common,
and whichever of them stands on the left. So is how many of them are different, and how many variables
have to be issued to rename them all.
-/

namespace Refutation

/-- Pairing from the left and pairing from the right lists the same pairs. -/
theorem perm_flatMap_map_comm {α β γ : Type} (as : List α) (bs : List β) (f : α → β → γ) :
    (as.flatMap fun a => bs.map fun b => f a b).Perm (bs.flatMap fun b => as.map fun a => f a b) := by
  induction as with
  | nil => simp
  | cons a as ih =>
      rw [List.flatMap_cons]
      exact (ih.append_left _).trans (List.map_append_flatMap_perm bs _ _)

theorem LiteralSet.variant_of_mostGeneral {s t : Term} {θ θ' : VarId → Term} (general : MostGeneral θ s t)
    (general' : MostGeneral θ' s t) (C : LiteralSet) :
    Variant (Literal.subst θ '' C) (Literal.subst θ' '' C) := by
  obtain ⟨α, ahead⟩ := general.factors θ' general'.unifies
  obtain ⟨β, behind⟩ := general'.factors θ general.unifies
  have forth : ∀ l : Literal, (l.subst θ).subst α = l.subst θ' := by
    intro l
    rw [Literal.subst_subst]
    simp only [← ahead]
  have back : ∀ l : Literal, (l.subst θ').subst β = l.subst θ := by
    intro l
    rw [Literal.subst_subst]
    simp only [← behind]
  refine variant_of_instances (α := α) (β := β) ?_ ?_
  · rintro _ ⟨l, member, rfl⟩
    rw [forth, back]
    exact ⟨⟨l, member, rfl⟩, rfl⟩
  · rintro _ ⟨l, member, rfl⟩
    exact ⟨l.subst θ, ⟨l, member, rfl⟩, forth l⟩

namespace Clash

/-- The same clash seen from the other clause. -/
def swap (clash : Clash) : Clash := ⟨clash.right, clash.rightRest, clash.left, clash.leftRest⟩

def rename (ρ : VarId → VarId) (clash : Clash) : Clash :=
  ⟨clash.left.rename ρ, clash.leftRest.map (Literal.rename ρ), clash.right.rename ρ,
    clash.rightRest.map (Literal.rename ρ)⟩

variable {symbols : Symbols} {clash other : Clash} {r s : Clause}

theorem rest_swap (clash : Clash) : clash.swap.rest = clash.rest := by
  ext l
  exact or_comm

theorem rest_rename (ρ : VarId → VarId) (clash : Clash) :
    (clash.rename ρ).rest = Literal.rename ρ '' clash.rest := by
  ext l
  simp only [rest, rename, Set.mem_ofPred_eq, List.mem_map, Set.mem_image, or_and_right, exists_or]

/-- The standard form of what a clash leaves. -/
def form? (symbols : Symbols) (clash : Clash) : Option (List Literal) :=
  (clash.resolvent? symbols).map Clause.canonical

/-- Clashes that are solvable together, and leave the same then, have one form. -/
theorem form?_eq_of_same
    (solvable : (∃ θ, clash.left.atom.subst θ = clash.right.atom.subst θ) ↔
      ∃ θ, other.left.atom.subst θ = other.right.atom.subst θ)
    (same : ∀ r s, clash.resolvent? symbols = some r → other.resolvent? symbols = some s → r.Same s) :
    clash.form? symbols = other.form? symbols := by
  have some_iff : ∀ clash : Clash, (∃ r, clash.resolvent? symbols = some r) ↔
      ∃ θ, clash.left.atom.subst θ = clash.right.atom.subst θ := by
    intro clash
    constructor
    · rintro ⟨r, found⟩
      obtain ⟨m, unified, -⟩ := toSet_resolvent found
      exact ⟨m.image, (Bindings.mostGeneral_of_unify unified).unifies⟩
    · rintro ⟨θ, equal⟩
      obtain ⟨r, found, -⟩ := exists_resolvent clash symbols equal
      exact ⟨r, found⟩
  rw [← some_iff, ← some_iff] at solvable
  unfold form?
  cases left : clash.resolvent? symbols with
  | none =>
      cases right : other.resolvent? symbols with
      | none => rfl
      | some s =>
          obtain ⟨r, found⟩ := solvable.mpr ⟨s, right⟩
          rw [left] at found
          cases found
  | some r =>
      obtain ⟨s, right⟩ := solvable.mp ⟨r, left⟩
      rw [right]
      exact congrArg some (same r s left right)

end Clash

namespace Clause

variable {symbols : Symbols} {c d c' d' : Clause}

theorem swap_mem_clashes {clash : Clash} (inside : clash ∈ c.clashes d) : clash.swap ∈ d.clashes c := by
  obtain ⟨left, right, differ⟩ := mem_clashes_iff.mp inside
  exact mem_clashes_iff.mpr ⟨right, left, differ.symm⟩

theorem perm_clashes_swap (c d : Clause) : (d.clashes c).Perm ((c.clashes d).map Clash.swap) := by
  have turned : ∀ sign, ((d.picksOf sign).flatMap fun q => (c.picksOf !sign).map fun p =>
      (⟨q.1, q.2, p.1, p.2⟩ : Clash)).Perm (((c.picksOf !sign).flatMap fun p => (d.picksOf sign).map fun q =>
        (⟨p.1, p.2, q.1, q.2⟩ : Clash)).map Clash.swap) := by
    intro sign
    rw [List.map_flatMap]
    simp only [List.map_map]
    exact perm_flatMap_map_comm _ _ _
  simp only [clashes, List.flatMap_cons, List.flatMap_nil, List.append_nil, List.map_append]
  exact ((turned true).append (turned false)).trans List.perm_append_comm

theorem clashes_map_rename {τ : VarId → VarId} (left : c'.literals = c.literals.map (Literal.rename τ))
    (right : d'.literals = d.literals.map (Literal.rename τ)) :
    c'.clashes d' = (c.clashes d).map (Clash.rename τ) := by
  have picked : ∀ e e' : Clause, e'.literals = e.literals.map (Literal.rename τ) → ∀ sign,
      e'.picksOf sign = (e.picksOf sign).map fun p => (p.1.rename τ, p.2.map (Literal.rename τ)) := by
    intro e e' copy sign
    rw [picksOf, copy, picks_map, List.filter_map]
    rfl
  simp only [clashes, picked c c' left, picked d d' right, List.flatMap_map, List.map_flatMap, List.map_map]
  rfl

/-- The standard forms of what the clashes of two clauses leave, with repetitions. -/
def yield (symbols : Symbols) (c d : Clause) : List (List Literal) :=
  ((c.clashes d).filterMap (Clash.resolvent? symbols)).map canonical

theorem yield_eq_filterMap (symbols : Symbols) (c d : Clause) :
    c.yield symbols d = (c.clashes d).filterMap (Clash.form? symbols) := List.map_filterMap

section Copies

variable {ρ τ : VarId → VarId} (copy : c'.literals = c.literals.map (Literal.rename ρ))
include copy

theorem mem_vars_of_copy {x : VarId} (member : x ∈ c.vars) : ρ x ∈ c'.vars := by
  rw [vars, copy, flatMap_vars_rename]
  exact List.mem_map_of_mem member

theorem copy_congr (agree : Set.EqOn τ ρ {x | x ∈ c.vars}) :
    c'.literals = c.literals.map (Literal.rename τ) := by
  rw [copy]
  exact List.map_congr_left fun l member => l.rename_congr fun x occurs =>
    (agree (mem_flatMap_vars member occurs)).symm

end Copies

namespace Formed

theorem form?_swap (left : c.Formed symbols) (right : d.Formed symbols) {clash : Clash}
    (inside : clash ∈ c.clashes d) : clash.swap.form? symbols = clash.form? symbols := by
  refine Clash.form?_eq_of_same ⟨?_, ?_⟩ fun r s foundR foundS => ?_
  · rintro ⟨θ, equal⟩
    exact ⟨θ, equal.symm⟩
  · rintro ⟨θ, equal⟩
    exact ⟨θ, equal.symm⟩
  · obtain ⟨m, unified, toSetR⟩ := Clash.toSet_resolvent foundR
    obtain ⟨m', unified', toSetS⟩ := Clash.toSet_resolvent foundS
    have general := (Bindings.mostGeneral_of_unify unified).symm
    have formedR := Formed.resolvent (swap_mem_clashes inside) foundR right left
    have formedS := Formed.resolvent inside foundS left right
    rw [formedR.same_iff_variant formedS, toSetR, toSetS, Clash.rest_swap]
    exact LiteralSet.variant_of_mostGeneral general (Bindings.mostGeneral_of_unify unified') _

/-- It does not matter which of two clauses stands on the left. -/
theorem perm_yield_swap (left : c.Formed symbols) (right : d.Formed symbols) :
    (d.yield symbols c).Perm (c.yield symbols d) := by
  rw [yield_eq_filterMap, yield_eq_filterMap]
  refine ((perm_clashes_swap c d).filterMap _).trans ?_
  rw [List.filterMap_map]
  exact .of_eq (List.filterMap_congr fun clash inside => left.form?_swap right inside)

/-- A renaming that keeps variables apart changes no form. -/
theorem form?_rename (left : c.Formed symbols) (right : d.Formed symbols) (left' : c'.Formed symbols)
    (right' : d'.Formed symbols) {τ : VarId → VarId} (injective : Set.InjOn τ (c.toSet.vars ∪ d.toSet.vars))
    {clash : Clash} (inside : clash ∈ c.clashes d) (inside' : clash.rename τ ∈ c'.clashes d') :
    (clash.rename τ).form? symbols = clash.form? symbols := by
  obtain ⟨σ, back⟩ := LiteralSet.exists_inverse injective
  obtain ⟨inC, inD⟩ := mem_of_mem_clashes inside
  have within : clash.rest ⊆ c.toSet ∪ d.toSet := by
    obtain ⟨pickedC, pickedD, -⟩ := mem_clashes_iff.mp inside
    intro l member
    exact member.imp ((sublist_of_mem_picks pickedC).subset ·) ((sublist_of_mem_picks pickedD).subset ·)
  refine Clash.form?_eq_of_same ⟨?_, ?_⟩ fun r s foundR foundS => ?_
  · rintro ⟨θ, equal⟩
    have read : ∀ l : Literal, (l.rename τ).atom.subst θ = l.atom.subst fun x => θ (τ x) := by
      intro l
      rw [← Literal.atom_subst, Literal.subst_rename, Literal.atom_subst]
    exact ⟨fun x => θ (τ x), (read _).symm.trans (equal.trans (read _))⟩
  · rintro ⟨θ, equal⟩
    refine ⟨fun y => θ (σ y), ?_⟩
    show (clash.left.rename τ).atom.subst _ = (clash.right.rename τ).atom.subst _
    rw [← Literal.atom_subst, ← Literal.atom_subst, Resolvent.subst_undo back θ (.inl inC),
      Resolvent.subst_undo back θ (.inr inD), Literal.atom_subst, Literal.atom_subst]
    exact equal
  · obtain ⟨m, unified, toSetR⟩ := Clash.toSet_resolvent foundR
    obtain ⟨m', unified', toSetS⟩ := Clash.toSet_resolvent foundS
    have general := Bindings.mostGeneral_of_unify unified
    have general' := Bindings.mostGeneral_of_unify unified'
    have formedR := Formed.resolvent inside' foundR left' right'
    have formedS := Formed.resolvent inside foundS left right
    rw [formedR.same_iff_variant formedS, toSetR, toSetS, Clash.rest_rename]
    exact (Resolvent.variant_of_renamed back inC inD within general' general).symm

/-- Copies of two clauses yield what these yield, if the two and the copies have no variable in common. -/
theorem yield_eq_of_same (left : c.Formed symbols) (right : d.Formed symbols) (sameC : c.Same c')
    (sameD : d.Same d') (apart : c.Apart d) (apart' : c'.Apart d') :
    c'.yield symbols d' = c.yield symbols d := by
  have left' : c'.Formed symbols := .of_same sameC.symm left
  have right' : d'.Formed symbols := .of_same sameD.symm right
  obtain ⟨ρ, injective, copyC⟩ := exists_map_rename_of_same sameC
  obtain ⟨σ, injective', copyD⟩ := exists_map_rename_of_same sameD
  obtain ⟨τ, joint, onC, onD⟩ := LiteralSet.exists_joint_renaming injective injective' apart
    fun x inC y inD same => apart' _ (mem_vars_of_copy copyC inC) (same ▸ mem_vars_of_copy copyD inD)
  rw [← vars_toSet, ← vars_toSet] at joint
  have clashes := clashes_map_rename (copy_congr copyC onC) (copy_congr copyD onD)
  rw [yield_eq_filterMap, yield_eq_filterMap, clashes, List.filterMap_map]
  apply List.filterMap_congr
  intro clash inside
  have inside' : clash.rename τ ∈ c'.clashes d' := by
    rw [clashes]
    exact List.mem_map_of_mem inside
  exact left.form?_rename right left' right' joint inside inside'

end Formed

end Clause

end Refutation
