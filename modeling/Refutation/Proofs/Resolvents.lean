import Refutation.Proofs.ClauseIdentity
import Refutation.Proofs.Unifier
import Refutation.Resolution

/-!
What resolution yields. The clashes of two clauses are exactly their pairs of literals of opposite
sign, and the resolvents are, up to the names of variables, what is left of both clauses under a most
general unifier of such a pair. So every common instance of two literals of opposite sign is met by
some resolvent.
-/

namespace Refutation

namespace Clause

theorem mem_picksOf_iff {c : Clause} {sign : Bool} {p : Literal × List Literal} :
    p ∈ c.picksOf sign ↔ p ∈ picks c.literals ∧ p.1.positive = sign := by
  simp [picksOf]

/-- The clashes of two clauses are their pairs of literals of opposite sign. -/
theorem mem_clashes_iff {c d : Clause} {clash : Clash} :
    clash ∈ c.clashes d ↔ (clash.left, clash.leftRest) ∈ picks c.literals ∧
      (clash.right, clash.rightRest) ∈ picks d.literals ∧ clash.left.positive ≠ clash.right.positive := by
  simp only [clashes, List.mem_flatMap, List.mem_map, mem_picksOf_iff]
  constructor
  · rintro ⟨sign, -, p, ⟨left, signs⟩, q, ⟨right, opposite⟩, rfl⟩
    refine ⟨left, right, ?_⟩
    change p.1.positive ≠ q.1.positive
    rw [signs, opposite]
    cases sign <;> decide
  · rintro ⟨left, right, differ⟩
    refine ⟨clash.left.positive, by cases clash.left.positive <;> simp, _, ⟨left, rfl⟩, _, ⟨right, ?_⟩, rfl⟩
    exact Bool.eq_not.mpr (Ne.symm differ)

theorem renames_rename (c : Clause) (supply : Supply) :
    Renames (fun x => supply.issued + (Naming.ofList c.vars).index x) c.literals
      (c.rename supply).1.literals := by
  apply renames_map_of_injOn
  intro x member y _ same
  exact Naming.index_inj (Naming.mem_ofList.mpr member) (Nat.add_left_cancel same)

theorem exists_of_mem_renameAll {cs : List Clause} {supply : Supply} {r : Clause}
    (member : r ∈ (renameAll cs supply).1) : ∃ c ∈ cs, ∃ before, r = (c.rename before).1 := by
  induction cs generalizing supply with
  | nil => exact absurd member List.not_mem_nil
  | cons c cs ih =>
      rcases List.mem_cons.mp member with here | later
      · exact ⟨c, List.mem_cons_self, supply, here⟩
      · obtain ⟨d, inside, renamed⟩ := ih later
        exact ⟨d, List.mem_cons_of_mem c inside, renamed⟩

theorem exists_mem_renameAll {cs : List Clause} {c : Clause} (member : c ∈ cs) (supply : Supply) :
    ∃ before, (c.rename before).1 ∈ (renameAll cs supply).1 := by
  induction cs generalizing supply with
  | nil => exact absurd member List.not_mem_nil
  | cons d cs ih =>
      rcases List.mem_cons.mp member with rfl | later
      · exact ⟨supply, List.mem_cons_self⟩
      · obtain ⟨before, inside⟩ := ih later (d.rename supply).2
        exact ⟨before, List.mem_cons_of_mem _ inside⟩

theorem countP_ofLiterals_le (symbols : Symbols) (literals : List Literal) (sign : Literal → Bool) :
    (ofLiterals symbols literals).literals.countP sign ≤ literals.countP sign := by
  rw [List.countP_eq_length_filter, List.countP_eq_length_filter]
  apply ((nodup_ofLiterals symbols literals).filter sign).length_le_of_subset
  intro l member
  rw [List.mem_filter, mem_ofLiterals] at member
  exact List.mem_filter.mpr member

end Clause

/-- A substitution that agrees with some bindings has the same instances after them. -/
theorem Bindings.SolvedBy.subst_image {m : Bindings} {θ : VarId → Term} (solution : m.SolvedBy θ)
    (l : Literal) : (l.subst m.image).subst θ = l.subst θ := by
  have atoms : ((l.subst m.image).subst θ).atom = (l.subst θ).atom := by
    rw [Literal.atom_subst, Literal.atom_subst, Literal.atom_subst]
    exact solution.subst_apply l.atom
  exact Literal.ext_atom rfl atoms

theorem Clash.resolvent?_eq_some_iff {symbols : Symbols} {clash : Clash} {r : Clause} :
    clash.resolvent? symbols = some r ↔ clash.left.predicate = clash.right.predicate ∧
      ∃ m, Bindings.empty.unify clash.left.atom clash.right.atom = some m ∧
        r = .ofLiterals symbols ((clash.leftRest ++ clash.rightRest).map (Literal.subst m.image)) := by
  unfold resolvent?
  split
  · next same =>
      rw [Option.map_eq_some_iff]
      constructor
      · rintro ⟨m, found, rfl⟩
        exact ⟨same, m, found, rfl⟩
      · rintro ⟨-, m, found, rfl⟩
        exact ⟨m, found, rfl⟩
  · next differ => simp [differ]

namespace Clash

variable {symbols : Symbols} {clash : Clash} {r : Clause}

theorem atoms_eq_of_resolvent {m : Bindings}
    (found : Bindings.empty.unify clash.left.atom clash.right.atom = some m) :
    (clash.left.subst m.image).atom = (clash.right.subst m.image).atom := by
  rw [Literal.atom_subst, Literal.atom_subst]
  exact Bindings.solved_empty.apply_unify found

/-- A common instance of the two literals is met by the resolvent: its instance consists of those of
the other literals. -/
theorem exists_resolvent (clash : Clash) (symbols : Symbols) {θ : VarId → Term}
    (equal : clash.left.atom.subst θ = clash.right.atom.subst θ) :
    ∃ r, clash.resolvent? symbols = some r ∧
      ∀ k, (∃ l ∈ r.literals, l.subst θ = k) ↔
        ∃ l ∈ clash.leftRest ++ clash.rightRest, l.subst θ = k := by
  have predicates : clash.left.predicate = clash.right.predicate := by
    simp only [Literal.atom, Term.subst_app, Term.app.injEq] at equal
    exact equal.1
  obtain ⟨m, found⟩ := Bindings.solved_empty.exists_unify (Bindings.solvedBy_empty θ) equal
  have solution := (Bindings.solved_empty.solvedBy_unify_iff found θ).mpr
    ⟨Bindings.solvedBy_empty θ, equal⟩
  have absorbed := solution.subst_image
  refine ⟨_, resolvent?_eq_some_iff.mpr ⟨predicates, m, found, rfl⟩, fun k => ?_⟩
  simp only [Clause.mem_ofLiterals, List.mem_map]
  constructor
  · rintro ⟨_, ⟨l, member, rfl⟩, same⟩
    exact ⟨l, member, by rw [← absorbed, same]⟩
  · rintro ⟨l, member, same⟩
    exact ⟨_, ⟨l, member, rfl⟩, by rw [absorbed, same]⟩

/-- A resolvent has no more literals of either sign than the rest of both clauses. -/
theorem countP_resolvent_le (found : clash.resolvent? symbols = some r) (sign : Bool → Bool) :
    r.literals.countP (fun l => sign l.positive) ≤
      clash.leftRest.countP (fun l => sign l.positive) + clash.rightRest.countP (fun l => sign l.positive) := by
  obtain ⟨-, m, -, rfl⟩ := resolvent?_eq_some_iff.mp found
  have fewer := Clause.countP_ofLiterals_le symbols
    ((clash.leftRest ++ clash.rightRest).map (Literal.subst m.image)) fun l => sign l.positive
  rwa [List.countP_map, List.countP_append] at fewer

theorem size_resolvent_le (found : clash.resolvent? symbols = some r) :
    r.size ≤ clash.leftRest.length + clash.rightRest.length := by
  have fewer := countP_resolvent_le found fun _ => true
  rwa [List.countP_true] at fewer

end Clash

namespace Clause

variable {symbols : Symbols} {c d r : Clause} {supply : Supply}

/-- Every resolvent is a renamed copy of what a clash leaves. -/
theorem exists_clash_of_mem_resolve (member : r ∈ (c.resolve symbols d supply).1) :
    ∃ clash ∈ c.clashes d, ∃ bare before, clash.resolvent? symbols = some bare ∧
      r = (bare.rename before).1 := by
  obtain ⟨bare, listed, before, copy⟩ :=
    exists_of_mem_renameAll ((distinctBy_sublist canonical _).subset member)
  obtain ⟨clash, inside, found⟩ := List.mem_filterMap.mp listed
  exact ⟨clash, inside, bare, before, found, copy⟩

/-- What a clash leaves is a resolvent, up to the names of variables. -/
theorem exists_mem_resolve {clash : Clash} {bare : Clause} (inside : clash ∈ c.clashes d)
    (found : clash.resolvent? symbols = some bare) (supply : Supply) :
    ∃ r ∈ (c.resolve symbols d supply).1, r.Same bare := by
  obtain ⟨before, listed⟩ :=
    exists_mem_renameAll (List.mem_filterMap.mpr ⟨clash, inside, found⟩) supply
  obtain ⟨r, kept, same⟩ := exists_mem_distinctBy canonical listed
  exact ⟨r, kept, same⟩

/-- Two unit clauses of opposite sign with a common instance resolve to the empty clause. -/
theorem exists_empty_of_units {p q : Literal} {θ : VarId → Term} (left : c.literals = [p])
    (right : d.literals = [q]) (opposite : p.positive ≠ q.positive)
    (equal : p.atom.subst θ = q.atom.subst θ) (supply : Supply) :
    ∃ r ∈ (c.resolve symbols d supply).1, r.isEmpty = true := by
  have inside : (⟨p, [], q, []⟩ : Clash) ∈ c.clashes d := by
    rw [mem_clashes_iff, left, right]
    exact ⟨List.mem_singleton_self _, List.mem_singleton_self _, opposite⟩
  obtain ⟨bare, found, -⟩ := Clash.exists_resolvent ⟨p, [], q, []⟩ symbols equal
  obtain ⟨r, member, same⟩ := exists_mem_resolve inside found supply
  have size : r.size ≤ 0 := by
    rw [size_eq_of_same same]
    exact Clash.size_resolvent_le found
  exact ⟨r, member, List.isEmpty_iff.mpr (List.length_eq_zero_iff.mp (Nat.le_zero.mp size))⟩

end Clause

/-- Whether every resolvent of two clauses is in the set, up to the names of variables. -/
def Covers (symbols : Symbols) (clauses : Set Clause) (c d : Clause) : Prop :=
  ∀ clash ∈ c.clashes d, ∀ bare, clash.resolvent? symbols = some bare → ∃ r ∈ clauses, r.Same bare

theorem Covers.mono {symbols : Symbols} {small large : Set Clause} {c d : Clause}
    (covers : Covers symbols small c d) (sub : small ⊆ large) : Covers symbols large c d := by
  intro clash inside bare found
  obtain ⟨r, member, same⟩ := covers clash inside bare found
  exact ⟨r, sub member, same⟩

/-- Where the resolvents of two clauses are covered, every common instance of two literals of opposite
sign is met by a clause with no more literals of either sign than the rest. -/
theorem Covers.exists_instance {symbols : Symbols} {clauses : Set Clause} {c d : Clause}
    (covers : Covers symbols clauses c d) {p q : Literal} {ps qs : List Literal} {θ : VarId → Term}
    (left : (p, ps) ∈ picks c.literals)
    (right : (q, qs) ∈ picks d.literals) (opposite : p.positive ≠ q.positive)
    (equal : p.atom.subst θ = q.atom.subst θ) :
    ∃ r ∈ clauses, (∀ sign : Bool → Bool, r.literals.countP (fun l => sign l.positive) ≤
        ps.countP (fun l => sign l.positive) + qs.countP (fun l => sign l.positive)) ∧
      ∃ σ, ∀ l ∈ r.literals, ∃ k ∈ ps ++ qs, l.subst σ = k.subst θ := by
  have inside : (⟨p, ps, q, qs⟩ : Clash) ∈ c.clashes d := Clause.mem_clashes_iff.mpr ⟨left, right, opposite⟩
  obtain ⟨bare, found, rest⟩ := Clash.exists_resolvent ⟨p, ps, q, qs⟩ symbols equal
  obtain ⟨r, member, same⟩ := covers _ inside bare found
  obtain ⟨ρ, renames⟩ := Clause.exists_renames_of_same same
  refine ⟨r, member, fun sign => ?_, fun x => θ (ρ x), fun l occurs => ?_⟩
  · rw [Clause.countP_eq_of_same same sign]
    exact Clash.countP_resolvent_le found sign
  · obtain ⟨k, others, equal⟩ := (rest _).mp ⟨l.rename ρ, renames.rename_mem occurs, rfl⟩
    refine ⟨k, others, ?_⟩
    rw [equal, Literal.rename, Literal.subst_subst]
    simp only [Term.subst_var]

end Refutation
