import Refutation.Clause.Arrangement
import Refutation.Proofs.LiteralOrder

/-!
The search for the canonical arrangement loses nothing. It keeps, of all the arrangements of a given
length that agree with the order of literals, some with the least standard form, and one for every way
in which such an arrangement can go on. So its answer has the least standard form of all.
-/

namespace Refutation

section Selection

variable {α β : Type}

theorem exists_mem_picks {as : List α} {a : α} (member : a ∈ as) : ∃ rest, (a, rest) ∈ picks as := by
  rw [← map_fst_picks as, List.mem_map] at member
  obtain ⟨⟨b, rest⟩, inside, rfl⟩ := member
  exact ⟨rest, inside⟩

theorem sublist_of_mem_picks {as rest : List α} {a : α} (member : (a, rest) ∈ picks as) :
    rest.Sublist as := by
  induction as generalizing rest with
  | nil => exact absurd member List.not_mem_nil
  | cons b as ih =>
      rcases List.mem_cons.mp member with here | later
      · cases here
        exact List.sublist_cons_self _ _
      · obtain ⟨⟨c, others⟩, inside, same⟩ := List.mem_map.mp later
        cases same
        exact (ih inside).cons_cons b

theorem picks_map (f : α → β) (as : List α) : picks (as.map f) = (picks as).map fun p => (f p.1, p.2.map f) := by
  induction as with
  | nil => rfl
  | cons a as ih =>
      rw [List.map_cons, picks, picks, ih, List.map_cons, List.map_map, List.map_map]
      rfl

variable {cmp : β → β → Ordering}

theorem minima_ne_nil (cmp : β → β → Ordering) {entries : List (β × α)} (some : entries ≠ []) :
    minima cmp entries ≠ [] := by
  cases entries with
  | nil => exact absurd rfl some
  | cons first rest =>
      rw [minima]
      split
      · simp
      · split <;> simp

theorem mem_minima_iff [Std.TransCmp cmp] {entries : List (β × α)} {entry : β × α} :
    entry ∈ minima cmp entries ↔ entry ∈ entries ∧ ∀ other ∈ entries, (cmp entry.1 other.1).isLE := by
  induction entries generalizing entry with
  | nil => simp [minima]
  | cons first rest ih =>
      have itself : (cmp first.1 first.1).isLE := Ordering.isLE_of_eq_eq Std.ReflCmp.compare_self
      rw [minima, List.forall_mem_cons, List.mem_cons]
      split
      · next none =>
          have empty : rest = [] := by
            by_contra some
            exact minima_ne_nil cmp some none
          rw [List.mem_singleton, empty]
          constructor
          · rintro rfl
            exact ⟨.inl rfl, itself, by simp⟩
          · rintro ⟨here | later, -⟩
            · exact here
            · exact absurd later List.not_mem_nil
      · next low others tail =>
          rw [tail] at ih
          obtain ⟨lowMember, lowest⟩ := ih.mp List.mem_cons_self
          split
          · next less =>
              rw [List.mem_singleton]
              constructor
              · rintro rfl
                refine ⟨.inl rfl, itself, fun other later => ?_⟩
                exact Std.TransCmp.isLE_trans (Ordering.isLE_of_eq_lt less) (lowest other later)
              · rintro ⟨here | later, below, -⟩
                · exact here
                · -- `low` would be below the entry and the entry below `first`
                  have wrong := Std.TransCmp.isLE_trans (lowest entry later) below
                  rw [Std.OrientedCmp.gt_of_lt less] at wrong
                  exact absurd wrong (by decide)
          · next tie =>
              have back : (cmp low.1 first.1).isLE := Ordering.isLE_of_eq_eq (Std.OrientedCmp.eq_symm tie)
              rw [List.mem_cons]
              constructor
              · rintro (rfl | old)
                · refine ⟨.inl rfl, itself, fun other later => ?_⟩
                  exact Std.TransCmp.isLE_trans (Ordering.isLE_of_eq_eq tie) (lowest other later)
                · obtain ⟨later, below⟩ := ih.mp old
                  exact ⟨.inr later, Std.TransCmp.isLE_trans (below low lowMember) back, below⟩
              · rintro ⟨here | later, -, below⟩
                · exact .inl here
                · exact .inr (ih.mpr ⟨later, below⟩)
          · next greater =>
              have less : (cmp low.1 first.1).isLE :=
                Ordering.isLE_of_eq_lt (Std.OrientedCmp.lt_of_gt greater)
              constructor
              · intro old
                obtain ⟨later, below⟩ := ih.mp old
                exact ⟨.inr later, Std.TransCmp.isLE_trans (below low lowMember) less, below⟩
              · rintro ⟨rfl | later, -, below⟩
                · have wrong := below low lowMember
                  rw [greater] at wrong
                  exact absurd wrong (by decide)
                · exact ih.mpr ⟨later, below⟩

theorem mem_minima_of_tie [Std.TransCmp cmp] {entries : List (β × α)} {least entry : β × α}
    (kept : least ∈ minima cmp entries) (member : entry ∈ entries) (tie : cmp least.1 entry.1 = .eq) :
    entry ∈ minima cmp entries := by
  refine mem_minima_iff.mpr ⟨member, fun other inside => ?_⟩
  rw [← Std.TransCmp.congr_left tie]
  exact (mem_minima_iff.mp kept).2 other inside

end Selection

namespace Naming

theorem index?_of_mem {naming : Naming} {x : VarId} (met : x ∈ naming.order) :
    naming.index? x = some (naming.index x) := by
  obtain ⟨i, found⟩ := Option.isSome_iff_exists.mp (List.isSome_idxOf?.mpr met)
  rw [index?, index, List.idxOf_eq_getD_idxOf?, found, Option.getD_some]

theorem index?_add (naming : Naming) (x y : VarId) :
    (naming.add x).index? y = (naming.index? y).or (if y = x then some naming.size else none) := by
  by_cases met : x ∈ naming.order
  · rw [add_of_mem met]
    by_cases same : y = x
    · rw [same, index?_of_mem met, Option.some_or]
    · rw [if_neg same, Option.or_none]
  · rw [index?, order_add_of_not_mem met, List.idxOf?, List.findIdx?_append, index?, List.idxOf?]
    by_cases same : y = x
    · simp [same, size]
    · simp [same, Ne.symm same]

theorem size_add (naming : Naming) (x : VarId) :
    (naming.add x).size = if (naming.index? x).isSome then naming.size else naming.size + 1 := by
  by_cases met : x ∈ naming.order
  · rw [add_of_mem met, index?_of_mem met, Option.isSome_some, if_pos rfl]
  · have unnamed : naming.index? x = none := List.idxOf?_eq_none_iff.mpr met
    rw [unnamed, Option.isSome_none, if_neg (by decide), size, order_add_of_not_mem met,
      List.length_append, List.length_singleton, size]

/-- Two namings of one size that agree on some variables name the new ones among them alike. -/
theorem agree_addAll {left right : Naming} {xs ys : List VarId} (included : xs ⊆ ys)
    (sizes : left.size = right.size) (agree : ∀ y ∈ ys, left.index? y = right.index? y) :
    ∀ y ∈ ys, (left.addAll xs).index? y = (right.addAll xs).index? y := by
  induction xs generalizing left right with
  | nil => exact agree
  | cons x xs ih =>
      obtain ⟨head, tail⟩ := List.cons_subset.mp included
      apply ih tail
      · rw [size_add, size_add, agree x head, sizes]
      · intro y member
        rw [index?_add, index?_add, agree y member, sizes]

end Naming

namespace Arrangement

variable {symbols : Symbols} {sorted : List Literal}

/-- The arrangements of a number of literals that agree with the order, pruned or not. -/
inductive Reached (symbols : Symbols) (sorted : List Literal) : Nat → Arrangement → Prop
  | start : Reached symbols sorted 0 (.start sorted)
  | place {n : Nat} {a b : Arrangement} {standard : Literal} : Reached symbols sorted n a →
      (standard, b) ∈ a.successors symbols → Reached symbols sorted (n + 1) b

theorem mem_successors_iff {a b : Arrangement} {standard : Literal} :
    (standard, b) ∈ a.successors symbols ↔ ∃ first tail l rest, a.rest = first :: tail ∧
      (l, rest) ∈ picks a.rest ∧ l.compare symbols first = .eq ∧
        standard = (a.place l rest).1 ∧ b = (a.place l rest).2 := by
  unfold successors
  split
  · next none => simp [none]
  · next first tail some =>
      simp only [some, List.mem_map, List.mem_filter, beq_iff_eq, Prod.exists, List.cons.injEq, Prod.ext_iff]
      constructor
      · rintro ⟨l, rest, ⟨picked, tie⟩, named, placed⟩
        exact ⟨first, tail, l, rest, ⟨rfl, rfl⟩, picked, tie, named.symm, placed.symm⟩
      · rintro ⟨_, _, l, rest, ⟨rfl, rfl⟩, picked, tie, named, placed⟩
        exact ⟨l, rest, ⟨picked, tie⟩, named.symm, placed.symm⟩

/-- Every literal has its place or still waits for one. -/
theorem Reached.perm {n : Nat} {a : Arrangement} (reached : Reached symbols sorted n a) :
    (a.chosen ++ a.rest).Perm sorted := by
  induction reached with
  | start => exact .refl _
  | @place n a b standard _ successor ih =>
      obtain ⟨_, _, l, rest, -, picked, -, -, rfl⟩ := mem_successors_iff.mp successor
      have order := (perm_of_mem_picks picked).append_left a.chosen
      exact (List.append_assoc a.chosen [l] rest ▸ order).trans ih

theorem Reached.length {n : Nat} {a : Arrangement} (reached : Reached symbols sorted n a) :
    a.chosen.length = n := by
  induction reached with
  | start => rfl
  | place _ successor ih =>
      obtain ⟨_, _, l, rest, -, -, -, -, rfl⟩ := mem_successors_iff.mp successor
      rw [Arrangement.place, List.length_append, ih, List.length_singleton]

theorem Reached.length_rest {n : Nat} {a : Arrangement} (reached : Reached symbols sorted n a) :
    n + a.rest.length = sorted.length := by
  rw [← reached.length, ← List.length_append]
  exact reached.perm.length_eq

theorem successors_ne_nil (symbols : Symbols) {a : Arrangement} (more : a.rest ≠ []) :
    a.successors symbols ≠ [] := by
  obtain ⟨first, tail, split⟩ := List.exists_cons_of_ne_nil more
  obtain ⟨rest, picked⟩ := exists_mem_picks (show first ∈ a.rest by simp [split])
  have tie : first.compare symbols first = .eq := Std.ReflCmp.compare_self
  have member : ((a.place first rest).1, (a.place first rest).2) ∈ a.successors symbols :=
    mem_successors_iff.mpr ⟨first, tail, first, rest, split, picked, tie, rfl, rfl⟩
  exact List.ne_nil_of_mem member

theorem mem_extend {frontier : List Arrangement} {b : Arrangement} (member : b ∈ extend symbols frontier) :
    ∃ a ∈ frontier, ∃ standard, (standard, b) ∈ a.successors symbols ∧
      (standard, b) ∈ minima (Literal.compareExact symbols) (frontier.flatMap (successors symbols)) := by
  obtain ⟨⟨standard, c⟩, least, rfl⟩ := List.mem_map.mp ((distinctBy_sublist key _).subset member)
  obtain ⟨a, inside, successor⟩ := List.mem_flatMap.mp (mem_minima_iff.mp least).1
  exact ⟨a, inside, standard, successor, least⟩

theorem extend_ne_nil (symbols : Symbols) {frontier : List Arrangement} {a : Arrangement}
    (member : a ∈ frontier) (more : a.rest ≠ []) : extend symbols frontier ≠ [] := by
  obtain ⟨entry, successor⟩ := List.exists_mem_of_ne_nil _ (successors_ne_nil symbols more)
  have some : frontier.flatMap (successors symbols) ≠ [] :=
    List.ne_nil_of_mem (List.mem_flatMap.mpr ⟨a, member, successor⟩)
  obtain ⟨least, kept⟩ := List.exists_mem_of_ne_nil _
    (minima_ne_nil (Literal.compareExact symbols) some)
  obtain ⟨b, inside, -⟩ := exists_mem_distinctBy key (List.mem_map_of_mem (f := Prod.snd) kept)
  exact List.ne_nil_of_mem inside

theorem reached_of_mem_frontier {n : Nat} {a : Arrangement} (member : a ∈ frontier symbols sorted n) :
    Reached symbols sorted n a := by
  induction n generalizing a with
  | zero =>
      rw [frontier, List.mem_singleton] at member
      rw [member]
      exact .start
  | succ n ih =>
      obtain ⟨b, inside, standard, successor, -⟩ := mem_extend member
      exact .place (ih inside) successor

theorem frontier_ne_nil (symbols : Symbols) {n : Nat} (bound : n ≤ sorted.length) :
    frontier symbols sorted n ≠ [] := by
  induction n with
  | zero => simp [frontier]
  | succ n ih =>
      obtain ⟨a, member⟩ := List.exists_mem_of_ne_nil _ (ih (by omega))
      refine extend_ne_nil symbols member ?_
      intro none
      have lengths := (reached_of_mem_frontier member).length_rest
      rw [none, List.length_nil] at lengths
      omega

theorem best_mem (symbols : Symbols) (sorted : List Literal) :
    best symbols sorted ∈ frontier symbols sorted sorted.length := by
  have some := frontier_ne_nil symbols (Nat.le_refl sorted.length)
  rw [best, List.getLast?_eq_some_getLast some, Option.getD_some]
  exact List.getLast_mem some

theorem Reached.rest_eq_nil {a : Arrangement} (reached : Reached symbols sorted sorted.length a) :
    a.rest = [] := by
  have lengths := reached.length_rest
  exact List.length_eq_zero_iff.mp (by omega)

/-- The canonical arrangement is an order of all the literals. -/
theorem best_perm (symbols : Symbols) (sorted : List Literal) :
    (best symbols sorted).chosen.Perm sorted := by
  have reached := reached_of_mem_frontier (best_mem symbols sorted)
  have perm := reached.perm
  rwa [reached.rest_eq_nil, List.append_nil] at perm

end Arrangement

end Refutation
