import Mathlib.Data.List.Permutation
import Refutation.Proofs.Representation

/-!
The search for the canonical arrangement against a look at every order. Its candidates are all permutations of the
literals that are sorted, each with its variables numbered by first occurrence. The search drops most of them on the
way, and still ends with the least form that any of them has.
-/

namespace Refutation

namespace Arrangement

variable {symbols : Symbols} {sorted : List Literal}

/-- Literals with their variables numbered from zero in the order of first occurrence. -/
def numbered (order : List Literal) : List Literal :=
  order.map (Literal.rename (order.flatMap Literal.vars).eraseDups.idxOf)

/-- The orders that an exhaustive search goes through. -/
structure IsCandidate (symbols : Symbols) (sorted order : List Literal) : Prop where
  perm : order.Perm sorted
  sorted : Sorted symbols order

/-- The least numbered form of all candidates. -/
structure IsLeastForm (symbols : Symbols) (sorted form : List Literal) : Prop where
  attained : ∃ order, IsCandidate symbols sorted order ∧ numbered order = form
  least : ∀ order, IsCandidate symbols sorted order →
    List.compareLex (Literal.compareExact symbols) (numbered order) form ≠ .lt

theorem standardForm_eq_numbered (order : List Literal) : standardForm order = numbered order := by
  have names : (Naming.ofList (order.flatMap Literal.vars)).index = (order.flatMap Literal.vars).eraseDups.idxOf := by
    funext x
    rw [Naming.index, Naming.order_ofList]
  rw [standardForm, numbered, names]

theorem standard_eq_numbered (a : Arrangement) : a.standard = numbered a.chosen := by
  rw [a.standardized, standardForm_eq_numbered]

theorem IsCandidate.over_numbered (inTable : ∀ l ∈ sorted, l.Over symbols) {order : List Literal}
    (candidate : IsCandidate symbols sorted order) : ∀ l ∈ numbered order, l.Over symbols := by
  intro l member
  obtain ⟨k, inside, rfl⟩ := List.mem_map.mp member
  exact Literal.over_rename.mpr (inTable k (candidate.perm.subset inside))

theorem isCandidate_best (ordered : Sorted symbols sorted) :
    IsCandidate symbols sorted (best symbols sorted).chosen :=
  ⟨best_perm symbols sorted, best_sorted ordered⟩

theorem isLeastForm_best (inTable : ∀ l ∈ sorted, l.Over symbols) (ordered : Sorted symbols sorted) :
    IsLeastForm symbols sorted (best symbols sorted).standard where
  attained := ⟨_, isCandidate_best ordered, (standard_eq_numbered _).symm⟩
  least := by
    intro order candidate less
    have below := best_isLE inTable ordered candidate.perm candidate.sorted
    rw [standardForm_eq_numbered, Std.OrientedCmp.gt_of_lt less] at below
    exact absurd below (by decide)

/-- There is one least form: over a symbol table only equal literals are tied in the exact order. -/
theorem IsLeastForm.unique (inTable : ∀ l ∈ sorted, l.Over symbols) {form other : List Literal}
    (least : IsLeastForm symbols sorted form) (least' : IsLeastForm symbols sorted other) : form = other := by
  obtain ⟨order, candidate, rfl⟩ := least.attained
  obtain ⟨order', candidate', rfl⟩ := least'.attained
  have tie : List.compareLex (Literal.compareExact symbols) (numbered order) (numbered order') = .eq := by
    cases relation : List.compareLex (Literal.compareExact symbols) (numbered order) (numbered order') with
    | lt => exact absurd relation (least'.least order candidate)
    | eq => rfl
    | gt => exact absurd (Std.OrientedCmp.lt_of_gt relation) (least.least order' candidate')
  exact Clause.eq_of_compareLex (candidate.over_numbered inTable) (candidate'.over_numbered inTable) tie

/-- The search for the canonical arrangement of sorted literals ends with a sorted permutation of them and its
numbered form, and this is the least form that an exhaustive search would find. -/
theorem best_minimizes (inTable : ∀ l ∈ sorted, l.Over symbols) (ordered : Sorted symbols sorted) :
    IsCandidate symbols sorted (best symbols sorted).chosen ∧
      (best symbols sorted).standard = numbered (best symbols sorted).chosen ∧
      ∀ form, IsLeastForm symbols sorted form ↔ form = (best symbols sorted).standard := by
  have least := isLeastForm_best inTable ordered
  refine ⟨isCandidate_best ordered, standard_eq_numbered _, fun form => ⟨?_, ?_⟩⟩
  · intro least'
    exact least'.unique inTable least
  · intro same
    rwa [same]

/-- A path of three edges, all tied, is put in the order in which it is walked. -/
theorem best_minimizes_path :
    let symbols : Symbols := ⟨#["Edge"], by decide⟩
    let path : List Literal :=
      [⟨true, 0, [.var 0, .var 1]⟩, ⟨true, 0, [.var 1, .var 2]⟩, ⟨true, 0, [.var 3, .var 0]⟩]
    let walk : List Literal :=
      [⟨true, 0, [.var 0, .var 1]⟩, ⟨true, 0, [.var 1, .var 2]⟩, ⟨true, 0, [.var 2, .var 3]⟩]
    (∀ l ∈ path, l.Over symbols) ∧ Sorted symbols path ∧ (best symbols path).standard = walk := by
  intro symbols path walk
  have inTable : ∀ l ∈ path, l.Over symbols := by decide
  have ordered : Sorted symbols path := by
    unfold Sorted
    decide
  have candidate : IsCandidate symbols path
      [⟨true, 0, [.var 3, .var 0]⟩, ⟨true, 0, [.var 0, .var 1]⟩, ⟨true, 0, [.var 1, .var 2]⟩] := by
    refine ⟨by decide, ?_⟩
    unfold Sorted
    decide
  have least : ∀ order ∈ path.permutations',
      List.compareLex (Literal.compareExact symbols) (numbered order) walk ≠ .lt := by
    decide +kernel
  refine ⟨inTable, ordered, (((best_minimizes inTable ordered).2.2 walk).mp ⟨⟨_, candidate, by decide⟩, ?_⟩).symm⟩
  intro order candidate
  exact least order (List.mem_permutations'.mpr candidate.perm)

end Arrangement

end Refutation
