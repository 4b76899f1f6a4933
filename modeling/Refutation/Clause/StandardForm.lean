import Refutation.Literal
import Refutation.Naming

/-!
Standard forms of lists of literals: variables are named `0, 1, …` by first occurrence. An injective
renaming does not change the standard form, and the standard form of a list is that of its beginning
with the rest named after it.
-/

namespace Refutation

/-- Renames the variables of a list of literals to `0, 1, …` by first occurrence. -/
def standardForm (literals : List Literal) : List Literal :=
  literals.map (Literal.rename (Naming.ofList (literals.flatMap Literal.vars)).index)

theorem standardForm_nil : standardForm [] = [] := by
  rw [standardForm, List.map_nil]

theorem flatMap_vars_rename (ρ : VarId → VarId) (literals : List Literal) :
    (literals.map (Literal.rename ρ)).flatMap Literal.vars = (literals.flatMap Literal.vars).map ρ := by
  rw [List.flatMap_map, List.map_flatMap, List.flatMap_def, List.flatMap_def,
    List.map_congr_left fun l _ => l.vars_rename ρ]

theorem mem_flatMap_vars {literals : List Literal} {l : Literal} {x : VarId} (member : l ∈ literals)
    (occurs : x ∈ l.vars) : x ∈ literals.flatMap Literal.vars :=
  List.mem_flatMap.mpr ⟨l, member, occurs⟩

/-- An injective renaming of variables does not change the standard form. -/
theorem standardForm_map_rename {ρ : VarId → VarId} {literals : List Literal}
    (injective : ∀ x ∈ literals.flatMap Literal.vars, ∀ y ∈ literals.flatMap Literal.vars,
      ρ x = ρ y → x = y) :
    standardForm (literals.map (Literal.rename ρ)) = standardForm literals := by
  rw [standardForm, standardForm, flatMap_vars_rename, List.map_map]
  apply List.map_congr_left
  intro l member
  rw [Function.comp_apply, Literal.rename_rename]
  apply Literal.rename_congr
  intro x occurs
  exact Naming.index_ofList_map injective (mem_flatMap_vars member occurs)

theorem standardForm_standardForm (literals : List Literal) :
    standardForm (standardForm literals) = standardForm literals :=
  standardForm_map_rename fun _ member _ _ same => Naming.index_inj (Naming.mem_ofList.mpr member) same

theorem naming_append (literals : List Literal) (l : Literal) :
    Naming.ofList ((literals ++ [l]).flatMap Literal.vars) =
      (Naming.ofList (literals.flatMap Literal.vars)).addAll l.vars := by
  rw [List.flatMap_append, List.flatMap_cons, List.flatMap_nil, List.append_nil]
  exact Naming.addAll_append _ _ _

theorem standardForm_append (literals : List Literal) (l : Literal) :
    standardForm (literals ++ [l]) = standardForm literals ++
      [l.rename ((Naming.ofList (literals.flatMap Literal.vars)).addAll l.vars).index] := by
  rw [standardForm, naming_append, List.map_append, List.map_cons, List.map_nil, standardForm]
  congr 1
  apply List.map_congr_left
  intro k member
  apply Literal.rename_congr
  intro x occurs
  exact Naming.index_addAll (Naming.mem_ofList.mpr (mem_flatMap_vars member occurs)) _

end Refutation
