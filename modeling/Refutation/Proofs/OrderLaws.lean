import Refutation.Proofs.Interning

/-!
The laws of the two orders of literals. Both are total preorders for every symbol table. What they tie rests on the
table: different symbols have different names, so the order that takes all variables to be alike ties two literals
exactly if they are the same but for their variables, and the exact order ties no two literals.
-/

namespace Refutation

/-- Comparisons that come from a total preorder. -/
structure Preorders {α : Type} (cmp : α → α → Ordering) : Prop where
  swap : ∀ a b, cmp b a = (cmp a b).swap
  lt_trans : ∀ a b c, cmp a b = .lt → cmp b c = .lt → cmp a c = .lt
  eq_trans : ∀ a b c, cmp a b = .eq → cmp b c = .eq → cmp a c = .eq
  le_trans : ∀ a b c, cmp a b ≠ .gt → cmp b c ≠ .gt → cmp a c ≠ .gt

theorem Preorders.of_transCmp {α : Type} (cmp : α → α → Ordering) [Std.TransCmp cmp] : Preorders cmp where
  swap _ _ := Std.OrientedCmp.eq_swap
  lt_trans _ _ _ := Std.TransCmp.lt_trans
  eq_trans _ _ _ := Std.TransCmp.eq_trans
  le_trans a b c := by
    simp only [Ordering.ne_gt_iff_isLE]
    exact Std.TransCmp.isLE_trans

namespace Literal

/-- The literal with one variable in place of all. -/
def blank (z : VarId) (l : Literal) : Literal := l.rename fun _ => z

/-- How two literals compare does not depend on which variables stand where. -/
theorem compare_of_blank {symbols : Symbols} {z : VarId} {l l' r r' : Literal} (left : l.blank z = l'.blank z)
    (right : r.blank z = r'.blank z) : l.compare symbols r = l'.compare symbols r' := by
  rw [← compare_rename symbols (fun _ => z) (fun _ => z) l r, ← blank, ← blank, left, right]
  exact compare_rename symbols _ _ l' r'

/-- The order that takes all variables to be alike ties literals that are the same but for their variables. -/
theorem compare_eq_iff {table : Symbols} {l r : Literal} (left : l.Over table) (right : r.Over table) (z : VarId) :
    l.compare table r = .eq ↔ l.blank z = r.blank z :=
  compareWith_eq_iff (fun _ _ => ⟨fun _ => rfl, fun _ => rfl⟩) left right

/-- For every table that comes about by entering names, the orders of literals are total preorders. The first does not
see which variables stand where, and ties two literals over the table exactly if they are the same with one variable in
place of all; the second ties a literal over the table with itself only. -/
theorem orders_lawful (names : List String) :
    Preorders (Literal.compare (.ofNames names)) ∧
    (∀ (ρ σ : VarId → VarId) (l r : Literal),
      (l.rename ρ).compare (.ofNames names) (r.rename σ) = l.compare (.ofNames names) r) ∧
    (∀ (z : VarId) (l l' r r' : Literal), l.blank z = l'.blank z → r.blank z = r'.blank z →
      l.compare (.ofNames names) r = l'.compare (.ofNames names) r') ∧
    (∀ l r : Literal, l.Over (.ofNames names) → r.Over (.ofNames names) →
      ∀ z, l.compare (.ofNames names) r = .eq ↔ l.blank z = r.blank z) ∧
    Preorders (Literal.compareExact (.ofNames names)) ∧
    ∀ l r : Literal, l.Over (.ofNames names) → r.Over (.ofNames names) →
      (l.compareExact (.ofNames names) r = .eq ↔ l = r) := by
  refine ⟨.of_transCmp _, compare_rename _, fun _ _ _ _ _ => compare_of_blank, ?_, .of_transCmp _, ?_⟩
  · exact fun l r left right z => compare_eq_iff left right z
  · exact fun l r left right => compareExact_eq_iff left right

/-- `P(x₇, A)` and `P(x₂, A)` are tied as long as variables are alike, both come before `P(x₀, B)`, and the exact order
tells them apart. -/
theorem orders_lawful_alike :
    let table := Symbols.ofNames ["P", "B", "A", "B"]
    let left : Literal := ⟨true, 0, [.var 7, .const 2]⟩
    let right : Literal := ⟨true, 0, [.var 2, .const 2]⟩
    let later : Literal := ⟨true, 0, [.var 0, .const 1]⟩
    left.Over table ∧ right.Over table ∧ left.compare table right = .eq ∧
      left.compare table later = right.compare table later ∧ left.compare table later = .lt ∧
      later.compare table left = .gt ∧ left.compareExact table right ≠ .eq := by
  intro table left right later
  have overLeft : left.Over table := by decide +kernel
  have overRight : right.Over table := by decide +kernel
  have before : left.compare table later = .lt := by decide +kernel
  obtain ⟨laws, -, unseen, ties, -, exactly⟩ := orders_lawful ["P", "B", "A", "B"]
  have behind : later.compare table left = .gt := by
    rw [laws.swap left later, before]
    rfl
  refine ⟨overLeft, overRight, (ties left right overLeft overRight 0).mpr rfl, unseen 0 left right later later rfl rfl,
    before, behind, fun tie => ?_⟩
  exact absurd ((exactly left right overLeft overRight).mp tie) (by decide)

end Literal

end Refutation
