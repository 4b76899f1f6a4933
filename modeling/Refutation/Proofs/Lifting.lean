import Refutation.Proofs.Derivation
import Refutation.Proofs.FaultFreedom
import Refutation.Proofs.Representation

/-!
Resolution lifts instances. Where a substitution makes two literals of opposite sign clash, some resolvent has what is
left of the two clauses under it for an instance, whether or not the clauses share variables: the unifier is most general,
and neither putting the literals in order, nor leaving one of several equal resolvents, nor renaming it loses an
instance. The other way round every resolvent is, up to the names of variables, what a most general unifier of such
literals leaves.
-/

namespace Refutation

namespace Clause

variable {symbols : Symbols} {c d r s : Clause}

theorem size_ofLiterals_le (symbols : Symbols) (literals : List Literal) :
    (ofLiterals symbols literals).size ≤ literals.length := by
  have fewer := countP_ofLiterals_le symbols literals fun _ => true
  rwa [List.countP_true] at fewer

/-- A clause has the instances of any that is the same. -/
theorem exists_subst_of_same (same : r.Same s) (θ : VarId → Term) :
    ∃ ρ : VarId → Term, Literal.subst ρ '' r.toSet = Literal.subst θ '' s.toSet := by
  obtain ⟨τ, -, renamed⟩ := variant_of_same same
  refine ⟨fun x => θ (τ x), ?_⟩
  rw [← renamed, Set.image_image]
  exact Set.image_congr fun l _ => (l.subst_rename τ θ).symm

/-- What a substitution leaves of two clauses that clash under it is an instance of a resolvent. -/
theorem exists_lifted_of_clash (symbols : Symbols) {clash : Clash} {θ : VarId → Term} (inside : clash ∈ c.clashes d)
    (equal : clash.left.atom.subst θ = clash.right.atom.subst θ) (supply : Supply) :
    ∃ r ∈ (c.resolve symbols d supply).1, ∃ ρ : VarId → Term,
      Literal.subst ρ '' r.toSet = Literal.subst θ '' clash.rest := by
  obtain ⟨bare, found, instances⟩ := clash.exists_resolvent symbols equal
  obtain ⟨r, member, same⟩ := exists_mem_resolve inside found supply
  obtain ⟨ρ, images⟩ := exists_subst_of_same same θ
  refine ⟨r, member, ρ, images.trans (Set.ext fun k => ?_)⟩
  have listed : ∀ l, l ∈ clash.leftRest ++ clash.rightRest ↔ l ∈ clash.rest := fun l => List.mem_append
  have both := instances k
  simp only [listed] at both
  exact both

/-- A resolvent has no more literals than its parents have without the two that clash. -/
theorem size_of_mem_resolve {supply : Supply} (member : r ∈ (c.resolve symbols d supply).1) :
    r.size + 2 ≤ c.size + d.size := by
  obtain ⟨clash, inside, bare, before, found, rfl⟩ := exists_clash_of_mem_resolve member
  obtain ⟨pickedC, pickedD, -⟩ := mem_clashes_iff.mp inside
  have left : clash.leftRest.length + 1 = c.size := (perm_of_mem_picks pickedC).length_eq
  have right : clash.rightRest.length + 1 = d.size := (perm_of_mem_picks pickedD).length_eq
  have bound := Clash.size_resolvent_le found
  have same : (bare.rename before).1.size = bare.size := size_eq_of_same rfl
  omega

/-- Up to the names of variables, what resolution yields are resolvents. -/
theorem exists_resolvent_of_mem_resolve (distinctC : c.literals.Nodup) (distinctD : d.literals.Nodup)
    {supply : Supply} (member : r ∈ (c.resolve symbols d supply).1) :
    ∃ R, Resolvent c.toSet d.toSet R ∧ r.toSet.Variant R := by
  obtain ⟨clash, inside, bare, before, found, rfl⟩ := exists_clash_of_mem_resolve member
  exact ⟨bare.toSet, resolvent_of_clash distinctC distinctD inside found, variant_of_same rfl⟩

/-- Clauses that the operations make are resolved on literals by their places, negative ones before the division and
positive ones behind it. Where a substitution makes a literal of one and a literal of the other of opposite sign equal but
for the sign, what it leaves of both is an instance of a resolvent, and every resolvent is a variant of what a most
general unifier of two such literals leaves, and shorter than both together by two at least. -/
theorem resolve_lifts (left : Made symbols c) (right : Made symbols d) (supply : Supply) :
    Guarded.resolve symbols c d supply = .ok (c.resolve symbols d supply) ∧
    (∀ θ : VarId → Term, ∀ p ∈ c.literals, ∀ q ∈ d.literals, p.positive ≠ q.positive →
      p.atom.subst θ = q.atom.subst θ →
      ∃ r ∈ (c.resolve symbols d supply).1, ∃ ρ : VarId → Term, Literal.subst ρ '' r.toSet =
        Literal.subst θ '' (c.toSet \ {p}) ∪ Literal.subst θ '' (d.toSet \ {q})) ∧
    ∀ r ∈ (c.resolve symbols d supply).1,
      (∃ p ∈ c.literals, ∃ q ∈ d.literals, p.positive ≠ q.positive ∧ ∃ θ, MostGeneral θ p.atom q.atom ∧
        r.toSet.Variant (Literal.subst θ '' (c.toSet \ {p}) ∪ Literal.subst θ '' (d.toSet \ {q}))) ∧
      r.size + 2 ≤ c.size + d.size := by
  have distinctC := left.formed.nodup_literals
  have distinctD := right.formed.nodup_literals
  refine ⟨Guarded.resolve_eq_ok left.formed right.formed supply, fun θ p inC q inD opposite equal => ?_,
    fun r member => ⟨?_, size_of_mem_resolve member⟩⟩
  · obtain ⟨ps, pickedC⟩ := exists_mem_picks inC
    obtain ⟨qs, pickedD⟩ := exists_mem_picks inD
    have inside : (⟨p, ps, q, qs⟩ : Clash) ∈ c.clashes d := mem_clashes_iff.mpr ⟨pickedC, pickedD, opposite⟩
    obtain ⟨r, member, ρ, images⟩ := exists_lifted_of_clash symbols inside equal supply
    rw [rest_of_mem_clashes distinctC distinctD inside, Set.image_union] at images
    exact ⟨r, member, ρ, images⟩
  · obtain ⟨R, ⟨p, inC, q, inD, opposite, θ, general, rfl⟩, variant⟩ :=
      exists_resolvent_of_mem_resolve distinctC distinctD member
    rw [Set.image_union] at variant
    exact ⟨p, inC, q, inD, opposite, θ, general, variant⟩

/-- `~P(x₀) | Q(x₀,x₁)` and `P(f(x₁)) | R(x₁)` share a variable. With `A` for `x₁` and `f(A)` for `x₀` they leave
`Q(f(A),A)` and `R(A)`, an instance of a resolvent of two literals. -/
theorem resolve_lifts_shared :
    let symbols : Symbols := ⟨#["P", "Q", "R", "f", "A"], by decide⟩
    let c := ofLiterals symbols [⟨false, 0, [.var 0]⟩, ⟨true, 1, [.var 0, .var 1]⟩]
    let d := ofLiterals symbols [⟨true, 0, [.app 3 [.var 1]]⟩, ⟨true, 2, [.var 1]⟩]
    Made symbols c ∧ Made symbols d ∧ ∃ r ∈ (c.resolve symbols d ⟨2⟩).1, r.size ≤ 2 ∧ ∃ ρ : VarId → Term,
      Literal.subst ρ '' r.toSet = {⟨true, 1, [.app 3 [.const 4], .const 4]⟩, ⟨true, 2, [.const 4]⟩} := by
  intro symbols c d
  have left : Made symbols c := .ofLiterals (by decide)
  have right : Made symbols d := .ofLiterals (by decide)
  obtain ⟨-, lifted, resolvents⟩ := resolve_lifts left right ⟨2⟩
  obtain ⟨r, member, ρ, images⟩ := lifted (fun x => if x = 0 then .app 3 [.const 4] else .const 4)
    ⟨false, 0, [.var 0]⟩ (by simp [c]) ⟨true, 0, [.app 3 [.var 1]]⟩ (by simp [d]) (by decide) (by decide)
  have sizes : c.size + d.size ≤ 4 := Nat.add_le_add (size_ofLiterals_le _ _) (size_ofLiterals_le _ _)
  have bound := (resolvents r member).2
  refine ⟨left, right, r, member, by omega, ρ, images.trans ?_⟩
  rw [toSet_ofLiterals, toSet_ofLiterals]
  ext k
  simp [Literal.subst, or_and_right, eq_comm (b := k)]

end Clause

end Refutation
