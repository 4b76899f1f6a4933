import Mathlib.Data.List.Nodup
import Mathlib.Data.Set.Function
import Refutation.Clause.Basic
import Refutation.Proofs.LeastForm

/-!
Clauses are the same exactly if they are equal up to the names of their variables. A clause is the
renamed copy of its standard form, so clauses with one standard form are renamed copies of each other.
Conversely a renaming takes the sorted orders of one list of literals to those of the other without
changing their standard forms, and the least of these is unique.
-/

namespace Refutation

theorem nodup_eraseDups {α : Type} [BEq α] [LawfulBEq α] (as : List α) : as.eraseDups.Nodup := by
  induction size : as.length using Nat.strongRecOn generalizing as with
  | ind n ih =>
      cases as with
      | nil => simp
      | cons a as =>
          rw [List.eraseDups_cons, List.nodup_cons, List.mem_eraseDups]
          have shorter := List.length_filter_le (fun b => !b == a) as
          rw [List.length_cons] at size
          exact ⟨by simp, ih _ (by omega) _ rfl⟩

/-- A bijection between the variables of two lists of literals that takes the literals of the first to
those of the second. -/
structure Renames (ρ : VarId → VarId) (first second : List Literal) : Prop where
  vars : Set.BijOn ρ {x | x ∈ first.flatMap Literal.vars} {x | x ∈ second.flatMap Literal.vars}
  literals : Literal.rename ρ '' {l | l ∈ first} = {l | l ∈ second}

namespace Renames

variable {ρ σ : VarId → VarId} {first second third : List Literal}

theorem rename_mem (renames : Renames ρ first second) {l : Literal} (member : l ∈ first) :
    l.rename ρ ∈ second := by
  have image : l.rename ρ ∈ Literal.rename ρ '' {l | l ∈ first} := ⟨l, member, rfl⟩
  rwa [renames.literals] at image

theorem exists_rename (renames : Renames ρ first second) {l : Literal} (member : l ∈ second) :
    ∃ k ∈ first, k.rename ρ = l := by
  have image : l ∈ Literal.rename ρ '' {l | l ∈ first} := by rwa [renames.literals]
  exact image

theorem undo_rename (back : ∀ x ∈ first.flatMap Literal.vars, σ (ρ x) = x) {l : Literal}
    (member : l ∈ first) : (l.rename ρ).rename σ = l := by
  rw [Literal.rename_rename]
  exact l.rename_eq_self fun x occurs => back x (mem_flatMap_vars member occurs)

/-- Renaming back. -/
theorem inverse (renames : Renames ρ first second) :
    ∃ σ, Renames σ second first ∧ ∀ x ∈ first.flatMap Literal.vars, σ (ρ x) = x := by
  obtain ⟨σ, inverts⟩ : ∃ σ, Set.InvOn σ ρ {x | x ∈ first.flatMap Literal.vars}
      {x | x ∈ second.flatMap Literal.vars} := ⟨_, renames.vars.invOn_invFunOn⟩
  have undo : ∀ l ∈ first, (l.rename ρ).rename σ = l := fun l member =>
    undo_rename inverts.1 member
  refine ⟨σ, ⟨(Set.bijOn_comm inverts.symm).mp renames.vars, ?_⟩, inverts.1⟩
  apply Set.eq_of_subset_of_subset
  · rintro _ ⟨l, member, rfl⟩
    obtain ⟨k, inside, rfl⟩ := renames.exists_rename member
    rw [undo k inside]
    exact inside
  · intro l member
    exact ⟨l.rename ρ, renames.rename_mem member, undo l member⟩

theorem trans (left : Renames ρ first second) (right : Renames σ second third) :
    Renames (fun x => σ (ρ x)) first third := by
  refine ⟨right.vars.comp left.vars, ?_⟩
  rw [← right.literals, ← left.literals, Set.image_image]
  apply Set.image_congr
  intro l _
  exact (Literal.rename_rename ρ σ l).symm

theorem of_mem_iff (same : ∀ l, l ∈ first ↔ l ∈ second) : Renames id first second := by
  have vars : ∀ x, x ∈ first.flatMap Literal.vars ↔ x ∈ second.flatMap Literal.vars := by
    intro x
    simp only [List.mem_flatMap, same]
  refine ⟨?_, ?_⟩
  · rw [show {x | x ∈ first.flatMap Literal.vars} = {x | x ∈ second.flatMap Literal.vars} from
      Set.ext vars]
    exact Set.bijOn_id _
  · rw [show {l | l ∈ first} = {l | l ∈ second} from Set.ext same]
    have fixed : ∀ l : Literal, l.rename id = l := fun l => l.rename_eq_self fun _ _ => rfl
    simp [fixed]

theorem injOn_rename (renames : Renames ρ first second) : Set.InjOn (Literal.rename ρ) {l | l ∈ first} := by
  obtain ⟨σ, -, back⟩ := renames.inverse
  intro l inside r within same
  rw [← undo_rename back inside, ← undo_rename back within, same]

end Renames

theorem renames_map_of_injOn {ρ : VarId → VarId} {literals : List Literal}
    (injective : Set.InjOn ρ {x | x ∈ literals.flatMap Literal.vars}) :
    Renames ρ literals (literals.map (Literal.rename ρ)) := by
  refine ⟨⟨?_, injective, ?_⟩, ?_⟩
  · intro x member
    change ρ x ∈ (literals.map (Literal.rename ρ)).flatMap Literal.vars
    rw [flatMap_vars_rename]
    exact List.mem_map_of_mem member
  · intro y member
    change y ∈ (literals.map (Literal.rename ρ)).flatMap Literal.vars at member
    rw [flatMap_vars_rename] at member
    exact List.mem_map.mp member
  · ext l
    simp

theorem renames_standardForm (literals : List Literal) :
    Renames (Naming.ofList (literals.flatMap Literal.vars)).index literals (standardForm literals) :=
  renames_map_of_injOn fun _ member _ _ same => Naming.index_inj (Naming.mem_ofList.mpr member) same

namespace Clause

variable (symbols : Symbols) (literals : List Literal)

/-- The distinct literals in their sorted order, as the search for the canonical arrangement gets
them. -/
abbrev sortedLiterals : List Literal :=
  literals.eraseDups.mergeSort fun l r => (l.compare symbols r).isLE

theorem perm_ofLiterals : (ofLiterals symbols literals).literals.Perm literals.eraseDups :=
  (Arrangement.best_perm symbols _).trans (List.mergeSort_perm _ _)

@[simp] theorem mem_ofLiterals {l : Literal} : l ∈ (ofLiterals symbols literals).literals ↔ l ∈ literals := by
  rw [(perm_ofLiterals symbols literals).mem_iff, List.mem_eraseDups]

theorem nodup_ofLiterals : (ofLiterals symbols literals).literals.Nodup :=
  (perm_ofLiterals symbols literals).nodup_iff.mpr (nodup_eraseDups literals)

theorem literals_ofLiterals_singleton (l : Literal) : (ofLiterals symbols [l]).literals = [l] := by
  have perm := perm_ofLiterals symbols [l]
  rw [List.eraseDups_cons, List.filter_nil, List.eraseDups_nil] at perm
  exact List.perm_singleton.mp perm

theorem sorted_ofLiterals : Arrangement.Sorted symbols (ofLiterals symbols literals).literals :=
  Arrangement.best_sorted (Arrangement.sorted_mergeSort symbols _)

variable {symbols literals}

/-- No sorted order of some literals has a standard form less than the clause of them. -/
theorem canonical_isLE_of_perm (inTable : ∀ l ∈ literals, l.Over symbols) {order : List Literal}
    (perm : order.Perm literals.eraseDups) (sorted : Arrangement.Sorted symbols order) :
    (List.compareLex (Literal.compareExact symbols) (ofLiterals symbols literals).canonical
      (standardForm order)).isLE := by
  have overSorted : ∀ l ∈ sortedLiterals symbols literals, l.Over symbols := by
    intro l member
    rw [List.mem_mergeSort, List.mem_eraseDups] at member
    exact inTable l member
  exact Arrangement.best_isLE overSorted (Arrangement.sorted_mergeSort symbols _)
    (perm.trans (List.mergeSort_perm literals.eraseDups _).symm) sorted

/-- A renamed copy of some literals has a standard form no greater than theirs. -/
theorem canonical_isLE_of_renames {ρ : VarId → VarId} {first second : List Literal}
    (inTable : ∀ l ∈ second, l.Over symbols) (renames : Renames ρ first second) :
    (List.compareLex (Literal.compareExact symbols) (ofLiterals symbols second).canonical
      (ofLiterals symbols first).canonical).isLE := by
  have members : ∀ l, l ∈ (ofLiterals symbols first).literals ↔ l ∈ first := fun l =>
    mem_ofLiterals symbols first
  have clause : Renames ρ (ofLiterals symbols first).literals second :=
    (Renames.of_mem_iff members).trans renames
  have perm : ((ofLiterals symbols first).literals.map (Literal.rename ρ)).Perm second.eraseDups := by
    refine (List.perm_ext_iff_of_nodup ?_ (nodup_eraseDups second)).mpr fun l => ?_
    · exact List.Nodup.map_on (fun l inside r within => clause.injOn_rename inside within)
        (nodup_ofLiterals symbols first)
    · rw [List.mem_eraseDups, List.mem_map]
      constructor
      · rintro ⟨k, member, rfl⟩
        exact clause.rename_mem member
      · exact clause.exists_rename
  have sorted : Arrangement.Sorted symbols
      ((ofLiterals symbols first).literals.map (Literal.rename ρ)) := by
    rw [Arrangement.Sorted, List.pairwise_map]
    simp only [Literal.compare_rename]
    exact sorted_ofLiterals symbols first
  have least := canonical_isLE_of_perm inTable perm sorted
  rwa [standardForm_map_rename fun x left y right => clause.vars.injOn left right, ← Clause.standard] at least

theorem eq_of_compareLex {first second : List Literal} (left : ∀ l ∈ first, l.Over symbols)
    (right : ∀ l ∈ second, l.Over symbols)
    (tie : List.compareLex (Literal.compareExact symbols) first second = .eq) : first = second := by
  induction first generalizing second with
  | nil =>
      cases second with
      | nil => rfl
      | cons r second => simp [List.compareLex_nil_cons] at tie
  | cons l first ih =>
      cases second with
      | nil => simp [List.compareLex_cons_nil] at tie
      | cons r second =>
          rw [List.compareLex_cons_cons, Ordering.then_eq_eq] at tie
          obtain ⟨overL, overFirst⟩ := List.forall_mem_cons.mp left
          obtain ⟨overR, overSecond⟩ := List.forall_mem_cons.mp right
          rw [(Literal.compareExact_eq_iff overL overR).mp tie.1, ih overFirst overSecond tie.2]

theorem over_canonical (inTable : ∀ l ∈ literals, l.Over symbols) :
    ∀ l ∈ (ofLiterals symbols literals).canonical, l.Over symbols := by
  intro l member
  rw [Clause.standard] at member
  obtain ⟨k, inside, rfl⟩ := List.mem_map.mp member
  exact Literal.over_rename.mpr (inTable k ((mem_ofLiterals symbols literals).mp inside))

/-- Clauses with one standard form are renamed copies of each other, literal by literal. -/
theorem exists_map_rename_of_same {c d : Clause} (same : c.Same d) :
    ∃ ρ : VarId → VarId, Set.InjOn ρ {x | x ∈ c.vars} ∧ d.literals = c.literals.map (Literal.rename ρ) := by
  have forms : standardForm c.literals = standardForm d.literals := by rw [← c.standard, ← d.standard, same]
  have toForm := renames_standardForm c.literals
  obtain ⟨σ, fromForm, back⟩ := (renames_standardForm d.literals).inverse
  rw [← forms] at fromForm
  refine ⟨_, (toForm.trans fromForm).vars.injOn, ?_⟩
  calc
    d.literals = (standardForm d.literals).map (Literal.rename σ) := by
      rw [standardForm, List.map_map, List.map_congr_left (g := id), List.map_id]
      exact fun l member => Renames.undo_rename back member
    _ = (standardForm c.literals).map (Literal.rename σ) := by rw [forms]
    _ = c.literals.map (Literal.rename _) := by
      rw [standardForm, List.map_map]
      exact List.map_congr_left fun l _ => Literal.rename_rename _ σ l

theorem exists_renames_of_same {c d : Clause} (same : c.Same d) : ∃ ρ, Renames ρ c.literals d.literals := by
  obtain ⟨ρ, injective, copy⟩ := exists_map_rename_of_same same
  rw [copy]
  exact ⟨ρ, renames_map_of_injOn injective⟩

theorem countP_standardForm (literals : List Literal) (sign : Bool → Bool) :
    (standardForm literals).countP (fun l => sign l.positive) =
      literals.countP (fun l => sign l.positive) := by
  rw [standardForm, List.countP_map]
  rfl

theorem countP_eq_of_same {c d : Clause} (same : c.Same d) (sign : Bool → Bool) :
    c.literals.countP (fun l => sign l.positive) = d.literals.countP (fun l => sign l.positive) := by
  calc
    c.literals.countP (fun l => sign l.positive) =
        (standardForm c.literals).countP (fun l => sign l.positive) := (countP_standardForm _ sign).symm
    _ = (standardForm d.literals).countP (fun l => sign l.positive) := by rw [← c.standard, ← d.standard, same]
    _ = d.literals.countP (fun l => sign l.positive) := countP_standardForm _ sign

theorem size_eq_of_same {c d : Clause} (same : c.Same d) : c.size = d.size := by
  have equal := countP_eq_of_same same fun _ => true
  rwa [List.countP_true] at equal

/-- Clauses of literals over one symbol table are the same exactly if a bijection between their
variables takes the literals of one to those of the other. -/
theorem same_ofLiterals_iff {first second : List Literal} (left : ∀ l ∈ first, l.Over symbols)
    (right : ∀ l ∈ second, l.Over symbols) :
    (ofLiterals symbols first).Same (ofLiterals symbols second) ↔
      ∃ ρ : VarId → VarId,
        Set.BijOn ρ {x | x ∈ first.flatMap Literal.vars} {x | x ∈ second.flatMap Literal.vars} ∧
        Literal.rename ρ '' {l | l ∈ first} = {l | l ∈ second} := by
  have members : ∀ literals l, l ∈ literals ↔ l ∈ (ofLiterals symbols literals).literals :=
    fun literals l => (mem_ofLiterals symbols literals).symm
  constructor
  · intro same
    obtain ⟨ρ, renames⟩ := exists_renames_of_same same
    have whole := ((Renames.of_mem_iff (members first)).trans renames).trans
      (Renames.of_mem_iff fun l => (members second l).symm)
    exact ⟨_, whole.vars, whole.literals⟩
  · rintro ⟨ρ, vars, literals⟩
    have renames : Renames ρ first second := ⟨vars, literals⟩
    obtain ⟨σ, back, -⟩ := renames.inverse
    have below := canonical_isLE_of_renames left back
    have above := canonical_isLE_of_renames right renames
    exact eq_of_compareLex (over_canonical left) (over_canonical right)
      (Std.OrientedCmp.isLE_antisymm below above)

/-- A cycle of three is the same clause from wherever it is read and whichever way its variables are
named. -/
theorem same_ofLiterals_cycle :
    let symbols : Symbols := ⟨#["R"], by decide⟩
    let first : List Literal :=
      [⟨true, 0, [.var 0, .var 1]⟩, ⟨true, 0, [.var 1, .var 2]⟩, ⟨true, 0, [.var 2, .var 0]⟩]
    let second : List Literal := [⟨true, 0, [.var 5, .var 9]⟩, ⟨true, 0, [.var 7, .var 5]⟩,
      ⟨true, 0, [.var 9, .var 7]⟩, ⟨true, 0, [.var 5, .var 9]⟩]
    (∀ l ∈ first, l.Over symbols) ∧ (∀ l ∈ second, l.Over symbols) ∧
      (ofLiterals symbols first).Same (ofLiterals symbols second) := by
  intro symbols first second
  have left : ∀ l ∈ first, l.Over symbols := by decide
  have right : ∀ l ∈ second, l.Over symbols := by decide
  -- `x₀ → x₁ → x₂` goes to `x₅ → x₉ → x₇`
  refine ⟨left, right, (same_ofLiterals_iff left right).mpr ⟨fun x => 5 + 4 * x % 6, ⟨?_, ?_, ?_⟩, ?_⟩⟩
  · show ∀ x ∈ first.flatMap Literal.vars, 5 + 4 * x % 6 ∈ second.flatMap Literal.vars
    decide
  · show ∀ x ∈ first.flatMap Literal.vars, ∀ y ∈ first.flatMap Literal.vars,
      5 + 4 * x % 6 = 5 + 4 * y % 6 → x = y
    decide
  · show ∀ y ∈ second.flatMap Literal.vars, ∃ x ∈ first.flatMap Literal.vars, 5 + 4 * x % 6 = y
    decide
  · apply Set.eq_of_subset_of_subset
    · rw [Set.image_subset_iff]
      show ∀ l ∈ first, l.rename (fun x => 5 + 4 * x % 6) ∈ second
      decide
    · show ∀ k ∈ second, ∃ l ∈ first, l.rename (fun x => 5 + 4 * x % 6) = k
      decide

end Clause

end Refutation
