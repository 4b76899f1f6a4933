import Refutation.Term.Basic

/-!
Naming variables by first occurrence. A naming lists variables in the order in which they were first
met; the position of a variable in it is its name. A supply counts the variables that were issued, and
issues a block of fresh ones for a naming, so that two blocks never overlap.
-/

namespace Refutation

structure Naming where
  order : List VarId
  distinct : order.Nodup

namespace Naming

def empty : Naming := ⟨[], List.nodup_nil⟩

private theorem append_distinct {order : List VarId} {x : VarId} (distinct : order.Nodup)
    (absent : x ∉ order) : (order ++ [x]).Nodup := by
  rw [List.nodup_append]
  refine ⟨distinct, by simp, ?_⟩
  intro y member z last same
  rw [List.mem_singleton] at last
  exact absent (last ▸ same ▸ member)

/-- Puts a variable at the end unless it was met before. -/
def add (naming : Naming) (x : VarId) : Naming :=
  if met : x ∈ naming.order then naming else ⟨naming.order ++ [x], append_distinct naming.distinct met⟩

def addAll (naming : Naming) (xs : List VarId) : Naming := xs.foldl add naming

/-- The naming of the variables of a list, each at its first occurrence. -/
def ofList (xs : List VarId) : Naming := empty.addAll xs

def size (naming : Naming) : Nat := naming.order.length

/-- The name of a variable: how many others were met before it. -/
def index (naming : Naming) (x : VarId) : VarId := naming.order.idxOf x

def index? (naming : Naming) (x : VarId) : Option VarId := naming.order.idxOf? x

@[simp] theorem mem_add {naming : Naming} {x y : VarId} :
    y ∈ (naming.add x).order ↔ y ∈ naming.order ∨ y = x := by
  unfold add
  split
  · next met =>
      constructor
      · exact .inl
      · rintro (old | rfl)
        · exact old
        · exact met
  · simp

@[simp] theorem mem_addAll {naming : Naming} {xs : List VarId} {y : VarId} :
    y ∈ (naming.addAll xs).order ↔ y ∈ naming.order ∨ y ∈ xs := by
  induction xs generalizing naming with
  | nil => simp [addAll]
  | cons x xs ih =>
      rw [addAll, List.foldl_cons, ← addAll, ih, mem_add, List.mem_cons, or_assoc]

@[simp] theorem mem_ofList {xs : List VarId} {y : VarId} : y ∈ (ofList xs).order ↔ y ∈ xs := by
  rw [ofList, mem_addAll]
  simp [empty]

theorem size_ofList_le {xs ys : List VarId} (sub : xs ⊆ ys) : (ofList xs).size ≤ (ofList ys).size := by
  apply (ofList xs).distinct.length_le_of_subset
  intro x member
  rw [mem_ofList] at member ⊢
  exact sub member

/-- A list that lacks a variable of a larger list has fewer distinct variables. -/
theorem size_ofList_lt {xs ys : List VarId} {x : VarId} (sub : xs ⊆ ys) (more : x ∈ ys)
    (lacks : x ∉ xs) : (ofList xs).size < (ofList ys).size := by
  have distinct : (x :: (ofList xs).order).Nodup := by
    rw [List.nodup_cons, mem_ofList]
    exact ⟨lacks, (ofList xs).distinct⟩
  have inside : x :: (ofList xs).order ⊆ (ofList ys).order := by
    intro y member
    rw [mem_ofList]
    rcases List.mem_cons.mp member with rfl | old
    · exact more
    · exact sub (mem_ofList.mp old)
  exact Nat.lt_of_succ_le (distinct.length_le_of_subset inside)

theorem add_of_mem {naming : Naming} {x : VarId} (met : x ∈ naming.order) : naming.add x = naming := by
  rw [add, dif_pos met]

theorem order_add_of_not_mem {naming : Naming} {x : VarId} (new : x ∉ naming.order) :
    (naming.add x).order = naming.order ++ [x] := by
  rw [add, dif_neg new]

theorem addAll_append (naming : Naming) (xs ys : List VarId) :
    naming.addAll (xs ++ ys) = (naming.addAll xs).addAll ys := by
  rw [addAll, List.foldl_append]
  rfl

theorem order_isPrefix_addAll (naming : Naming) (xs : List VarId) :
    naming.order <+: (naming.addAll xs).order := by
  induction xs generalizing naming with
  | nil => exact List.prefix_refl _
  | cons x xs ih =>
      have first : naming.order <+: (naming.add x).order := by
        by_cases met : x ∈ naming.order
        · exact ⟨[], by rw [add_of_mem met, List.append_nil]⟩
        · exact ⟨[x], (order_add_of_not_mem met).symm⟩
      exact first.trans (ih (naming.add x))

/-- A name once given never changes. -/
theorem index_addAll {naming : Naming} {x : VarId} (met : x ∈ naming.order) (xs : List VarId) :
    (naming.addAll xs).index x = naming.index x := by
  obtain ⟨later, whole⟩ := naming.order_isPrefix_addAll xs
  rw [index, index, ← whole, List.idxOf_append, if_pos met]

theorem index_lt {naming : Naming} {x : VarId} (met : x ∈ naming.order) : naming.index x < naming.size :=
  List.idxOf_lt_length_of_mem met

theorem index_inj {naming : Naming} {x y : VarId} (met : x ∈ naming.order)
    (same : naming.index x = naming.index y) : x = y := by
  have found : ∀ z, naming.index z < naming.size → naming.order[naming.index z]? = some z := by
    intro z bound
    rw [List.getElem?_eq_getElem bound]
    exact congrArg some (List.getElem_idxOf bound)
  have first := found x (index_lt met)
  have second := found y (same ▸ index_lt met)
  rw [same, second] at first
  exact (Option.some.inj first).symm

section Renaming

variable {ρ : VarId → VarId}

theorem order_addAll_map {before after : Naming} (xs : List VarId)
    (images : after.order = before.order.map ρ)
    (injective : ∀ x ∈ before.order ++ xs, ∀ y ∈ before.order ++ xs, ρ x = ρ y → x = y) :
    (after.addAll (xs.map ρ)).order = (before.addAll xs).order.map ρ := by
  induction xs generalizing before after with
  | nil => exact images
  | cons x xs ih =>
      have met : ρ x ∈ after.order ↔ x ∈ before.order := by
        rw [images, List.mem_map]
        constructor
        · intro image
          obtain ⟨y, member, same⟩ := image
          have equal : y = x := injective y (by simp [member]) x (by simp) same
          exact equal ▸ member
        · exact fun member => ⟨x, member, rfl⟩
      have sub : ∀ y ∈ (before.add x).order ++ xs, y ∈ before.order ++ x :: xs := by
        intro y member
        rw [List.mem_append, mem_add] at member
        rw [List.mem_append, List.mem_cons, ← or_assoc]
        exact member
      apply ih
      · by_cases old : x ∈ before.order
        · rw [add_of_mem old, add_of_mem (met.mpr old), images]
        · rw [order_add_of_not_mem old, order_add_of_not_mem (mt met.mp old), images, List.map_append]
          rfl
      · exact fun y left z right => injective y (sub y left) z (sub z right)

theorem order_ofList_map {xs : List VarId} (injective : ∀ x ∈ xs, ∀ y ∈ xs, ρ x = ρ y → x = y) :
    (ofList (xs.map ρ)).order = (ofList xs).order.map ρ :=
  order_addAll_map xs rfl injective

/-- Variables are named by first occurrence, whatever they are. -/
theorem index_ofList_map {xs : List VarId} (injective : ∀ x ∈ xs, ∀ y ∈ xs, ρ x = ρ y → x = y) {x : VarId}
    (member : x ∈ xs) : (ofList (xs.map ρ)).index (ρ x) = (ofList xs).index x := by
  rw [index, order_ofList_map injective, index]
  have inside : ∀ y, y ∈ (ofList xs).order → y ∈ xs := fun y => mem_ofList.mp
  have found : x ∈ (ofList xs).order := mem_ofList.mpr member
  generalize (ofList xs).order = order at inside found
  induction order with
  | nil => exact absurd found List.not_mem_nil
  | cons y order ih =>
      rw [List.map_cons, List.idxOf_cons, List.idxOf_cons]
      by_cases same : y = x
      · simp [same]
      · have differ : ρ y ≠ ρ x := fun equal =>
          same (injective y (inside y List.mem_cons_self) x member equal)
        have later := (List.mem_cons.mp found).resolve_left (Ne.symm same)
        have tail := ih (fun z within => inside z (List.mem_cons_of_mem _ within)) later
        rw [beq_eq_false_iff_ne.mpr same, beq_eq_false_iff_ne.mpr differ, tail]

end Renaming

end Naming

/-- How many variables were issued; the next one is that number. -/
structure Supply where
  issued : Nat

/-- Fresh variables for those of a naming, in its order, and the supply after them. -/
def Supply.issue (supply : Supply) (naming : Naming) : (VarId → VarId) × Supply :=
  (fun x => supply.issued + naming.index x, ⟨supply.issued + naming.size⟩)

end Refutation
