import Refutation.Proofs.Building

/-!
How clauses are represented. Whatever the operations make, and however the symbol table grows afterwards,
the literals of a clause are distinct and sorted, the negative ones end where the clause says, and its
standard form is both the literals with variables named by first occurrence and what the literals, or the
standard form itself, would be given anew. Renaming and standardizing carry the standard form and the
division over without looking at the literals, so all this rests on their being the same for every clause
that is the same.
-/

namespace Refutation

/-- A naming lists the variables without their later occurrences. -/
theorem Naming.order_addAll (naming : Naming) (xs : List VarId) :
    (naming.addAll xs).order = naming.order ++ (xs.filter fun x => x ∉ naming.order).eraseDups := by
  induction xs generalizing naming with
  | nil => simp [addAll]
  | cons x xs ih =>
      have step : (naming.addAll (x :: xs)).order = ((naming.add x).addAll xs).order := rfl
      rw [step, ih]
      by_cases met : x ∈ naming.order
      · simp [add_of_mem met, met]
      · have later : (xs.filter fun y => y ∉ naming.order ++ [x]) =
            (xs.filter fun y => y ∉ naming.order).filter fun y => !y == x := by
          rw [List.filter_filter]
          apply List.filter_congr
          intro y _
          by_cases old : y ∈ naming.order <;> by_cases same : y = x <;> simp [old, same]
        rw [order_add_of_not_mem met, later, List.filter_cons_of_pos (by simpa using met), List.eraseDups_cons,
          List.append_assoc, List.singleton_append]

theorem Naming.order_ofList (xs : List VarId) : (ofList xs).order = xs.eraseDups := by
  rw [ofList, order_addAll]
  simp [empty]

namespace Arrangement

variable {symbols : Symbols} {literals : List Literal}

theorem sorted_standardForm_iff : Sorted symbols (standardForm literals) ↔ Sorted symbols literals := by
  rw [Sorted, standardForm, List.pairwise_map]
  simp only [Literal.compare_rename]
  rfl

/-- After a positive literal no negative one is sorted. -/
theorem positive_of_isLE {l r : Literal} (before : (l.compare symbols r).isLE) (positive : l.positive = true) :
    r.positive = true := by
  by_contra negative
  rw [Bool.not_eq_true] at negative
  have order : l.compare symbols r = .gt := by
    rw [Literal.compare, Literal.compareWith, positive, negative]
    rfl
  rw [order] at before
  exact absurd before (by decide)

/-- In sorted literals exactly those before the first positive one are negative. -/
theorem Sorted.negative_iff (sorted : Sorted symbols literals) {i : Nat} {l : Literal}
    (place : literals[i]? = some l) : l.positive = false ↔ i < leadingNegatives literals := by
  induction literals generalizing i with
  | nil => simp at place
  | cons first rest ih =>
      obtain ⟨head, tail⟩ := List.pairwise_cons.mp sorted
      cases sign : first.positive with
      | true =>
          have none : leadingNegatives (first :: rest) = 0 := by simp [leadingNegatives, sign]
          have positive : l.positive = true := by
            rcases List.mem_cons.mp (List.mem_of_getElem? place) with rfl | later
            · exact sign
            · exact positive_of_isLE (head l later) sign
          simp [none, positive]
      | false =>
          have one : leadingNegatives (first :: rest) = leadingNegatives rest + 1 := by
            simp [leadingNegatives, sign]
          cases i with
          | zero =>
              obtain rfl : first = l := by simpa using place
              simp [one, sign]
          | succ i => rw [ih tail (by simpa using place), one, Nat.add_lt_add_iff_right]

end Arrangement

namespace Clause

variable {symbols : Symbols} {c d : Clause}

/-- The clauses that the operations make while names are entered into the symbol table. -/
inductive Made : Symbols → Clause → Prop
  | ofLiterals {symbols : Symbols} {literals : List Literal} : (∀ l ∈ literals, l.Over symbols) →
      Made symbols (.ofLiterals symbols literals)
  | empty {symbols : Symbols} : Made symbols .empty
  | standardize {symbols : Symbols} {c : Clause} : Made symbols c → Made symbols c.standardize
  | rename {symbols : Symbols} {c : Clause} (supply : Supply) : Made symbols c →
      Made symbols (c.rename supply).1
  | resolve {symbols : Symbols} {c d r : Clause} (supply : Supply) : Made symbols c → Made symbols d →
      r ∈ (c.resolve symbols d supply).1 → Made symbols r
  | intern {symbols : Symbols} {c : Clause} (name : String) : Made symbols c →
      Made (symbols.intern name).2 c

/-- The number of a variable by its first occurrence in the clause. -/
def nameOf (c : Clause) (x : VarId) : VarId := c.vars.eraseDups.idxOf x

/-- What can be relied on when the fields of a clause are read. -/
structure Represented (symbols : Symbols) (c : Clause) : Prop where
  distinct : c.literals.Nodup
  sorted : c.literals.Pairwise fun l r => (l.compare symbols r).isLE
  split_le : c.split ≤ c.literals.length
  negative_iff : ∀ i l, c.literals[i]? = some l → (l.positive = false ↔ i < c.split)
  nameOf_injOn : Set.InjOn c.nameOf {x | x ∈ c.vars}
  canonical_eq : c.canonical = c.literals.map (Literal.rename c.nameOf)
  recomputed : (ofLiterals symbols c.literals).canonical = c.canonical
  fixed : (ofLiterals symbols c.canonical).canonical = c.canonical

theorem nameOf_eq_index (c : Clause) : c.nameOf = (Naming.ofList c.vars).index := by
  funext x
  rw [nameOf, Naming.index, Naming.order_ofList]

theorem formed_empty (symbols : Symbols) : Clause.empty.Formed symbols := by
  refine ⟨[], fun _ member => absurd member List.not_mem_nil, ?_⟩
  have none : (ofLiterals symbols []).literals = [] := (perm_ofLiterals symbols []).eq_nil
  rw [Same, Clause.standard (ofLiterals symbols []), none, Clause.standard]
  rfl

namespace Formed

theorem sorted_literals (formed : c.Formed symbols) : Arrangement.Sorted symbols c.literals := by
  obtain ⟨literals, -, same⟩ := formed
  rw [← Arrangement.sorted_standardForm_iff, ← c.standard, same, Clause.standard,
    Arrangement.sorted_standardForm_iff]
  exact sorted_ofLiterals symbols literals

/-- A clause made anew of the literals of a formed one, or of a renamed copy of them, is the same. -/
theorem same_remade (formed : c.Formed symbols) {ρ : VarId → VarId} {literals : List Literal}
    (renames : Renames ρ c.literals literals) : (ofLiterals symbols literals).Same c := by
  have inTable : ∀ l ∈ literals, l.Over symbols := by
    intro l member
    obtain ⟨k, inside, rfl⟩ := renames.exists_rename member
    exact Literal.over_rename.mpr (formed.over_literals k inside)
  have made : Renames (fun x => id (ρ x)) c.literals (ofLiterals symbols literals).literals :=
    renames.trans (Renames.of_mem_iff fun l => (mem_ofLiterals symbols literals).symm)
  exact (formed.same_of_renames (formed_ofLiterals inTable) made).symm

theorem represented (formed : c.Formed symbols) : c.Represented symbols where
  distinct := formed.nodup_literals
  sorted := formed.sorted_literals
  split_le := by
    rw [c.divided]
    exact (List.takeWhile_sublist _).length_le
  negative_iff := fun i l place => by
    rw [c.divided]
    exact formed.sorted_literals.negative_iff place
  nameOf_injOn := by
    rw [nameOf_eq_index]
    exact (renames_standardForm c.literals).vars.injOn
  canonical_eq := by
    rw [nameOf_eq_index]
    exact c.standard
  recomputed := formed.same_remade (Renames.of_mem_iff fun _ => Iff.rfl)
  fixed := by
    refine formed.same_remade (ρ := (Naming.ofList c.vars).index) ?_
    rw [c.standard]
    exact renames_standardForm c.literals

end Formed

theorem Made.formed (made : Made symbols c) : c.Formed symbols := by
  induction made with
  | ofLiterals inTable => exact formed_ofLiterals inTable
  | empty => exact formed_empty _
  | standardize _ ih => exact .of_same rfl ih
  | rename supply _ ih => exact ih.rename supply
  | resolve supply _ _ member left right => exact formed_of_mem_resolve _ _ supply left right _ member
  | intern name _ ih => exact ih.extend (Symbols.extends_intern _ name)

/-- Clauses that the operations make are well represented over the symbol table, whatever names were entered
since. -/
theorem represented_of_made (made : Made symbols c) : c.Represented symbols := made.formed.represented

/-- A cycle of three with a negative literal, renamed, standardized and renamed again while a name is
entered. -/
theorem represented_cycle :
    let symbols : Symbols := ⟨#["R"], by decide⟩
    let cycle := ofLiterals symbols [⟨true, 0, [.var 4, .var 6]⟩, ⟨true, 0, [.var 6, .var 5]⟩,
      ⟨false, 0, [.var 6, .var 6]⟩, ⟨true, 0, [.var 5, .var 4]⟩]
    let copy := ((cycle.rename ⟨7⟩).1.standardize.rename ⟨2⟩).1
    Made (symbols.intern "S").2 copy ∧ copy.Represented (symbols.intern "S").2 := by
  intro symbols cycle copy
  have made : Made (symbols.intern "S").2 copy :=
    .rename ⟨2⟩ (.standardize (.intern "S" (.rename ⟨7⟩ (.ofLiterals (by decide)))))
  exact ⟨made, represented_of_made made⟩

end Clause

end Refutation
