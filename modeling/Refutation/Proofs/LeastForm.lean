import Refutation.Proofs.CanonicalOrder

/-!
The canonical arrangement has the least standard form. The invariant of the search is `Leads`: the
arrangements of the frontier share one standard form, and every arrangement of that length, pruned or
not, either has a greater standard form or agrees with one of the frontier in all that its
continuations depend on.
-/

namespace Refutation

theorem compareLex_append {α : Type} (cmp : α → α → Ordering) {xs ys : List α}
    (lengths : xs.length = ys.length) (x y : α) :
    List.compareLex cmp (xs ++ [x]) (ys ++ [y]) = (List.compareLex cmp xs ys).then (cmp x y) := by
  induction xs generalizing ys with
  | nil =>
      obtain rfl : ys = [] := List.length_eq_zero_iff.mp lengths.symm
      simp [List.compareLex_cons_cons, List.compareLex_nil_nil]
  | cons a xs ih =>
      cases ys with
      | nil => simp at lengths
      | cons b ys =>
          rw [List.cons_append, List.cons_append, List.compareLex_cons_cons, List.compareLex_cons_cons,
            ih (by simpa using lengths), Ordering.then_assoc]

namespace Arrangement

variable {symbols : Symbols} {sorted : List Literal}

theorem Reached.mem {n : Nat} {a : Arrangement} (reached : Reached symbols sorted n a) {l : Literal}
    (member : l ∈ a.rest) : l ∈ sorted :=
  reached.perm.subset (List.mem_append_right _ member)

/-- As many variables are named in the standard form as in the literals themselves. -/
theorem size_naming_standardForm (literals : List Literal) :
    (Naming.ofList ((standardForm literals).flatMap Literal.vars)).size =
      (Naming.ofList (literals.flatMap Literal.vars)).size := by
  rw [standardForm, flatMap_vars_rename, Naming.size, Naming.order_ofList_map, List.length_map, Naming.size]
  exact fun x member y _ same => Naming.index_inj (Naming.mem_ofList.mpr member) same

theorem size_naming_eq {a b : Arrangement} (standards : a.standard = b.standard) :
    a.naming.size = b.naming.size := by
  rw [a.named, b.named, ← size_naming_standardForm, ← size_naming_standardForm b.chosen,
    ← a.standardized, ← b.standardized, standards]

theorem place_agree {a b : Arrangement} (standards : a.standard = b.standard) (keys : a.key = b.key)
    {l : Literal} {rest : List Literal} (picked : (l, rest) ∈ picks b.rest) :
    (a.place l rest).1 = (b.place l rest).1 ∧ (a.place l rest).2.key = (b.place l rest).2.key := by
  have rests : a.rest = b.rest := congrArg Prod.fst keys
  have names : ∀ y ∈ b.rest.flatMap Literal.vars, a.naming.index? y = b.naming.index? y := by
    have listed := congrArg Prod.snd keys
    change (a.rest.flatMap Literal.vars).map _ = (b.rest.flatMap Literal.vars).map _ at listed
    rw [rests] at listed
    exact List.map_inj_left.mp listed
  have member : l ∈ b.rest := (perm_of_mem_picks picked).subset List.mem_cons_self
  have included : l.vars ⊆ b.rest.flatMap Literal.vars := fun x => mem_flatMap_vars member
  have after := Naming.agree_addAll included (size_naming_eq standards) names
  constructor
  · apply Literal.rename_congr
    intro x occurs
    have named := after x (included occurs)
    rw [Naming.index?_of_mem (Naming.mem_addAll.mpr (.inr occurs)),
      Naming.index?_of_mem (Naming.mem_addAll.mpr (.inr occurs))] at named
    exact Option.some.inj named
  · change (rest, _) = (rest, _)
    congr 1
    apply List.map_congr_left
    intro y occurs
    apply after
    obtain ⟨k, inside, within⟩ := List.mem_flatMap.mp occurs
    exact mem_flatMap_vars ((sublist_of_mem_picks picked).subset inside) within

/-- Arrangements that agree in standard form and key go on alike. -/
theorem exists_successor_agree {a b c : Arrangement} {standard : Literal}
    (standards : a.standard = b.standard) (keys : a.key = b.key)
    (successor : (standard, c) ∈ b.successors symbols) :
    ∃ d, (standard, d) ∈ a.successors symbols ∧ d.key = c.key := by
  obtain ⟨first, tail, l, rest, split, picked, tie, rfl, rfl⟩ := mem_successors_iff.mp successor
  have rests : a.rest = b.rest := congrArg Prod.fst keys
  obtain ⟨named, key⟩ := place_agree standards keys picked
  refine ⟨(a.place l rest).2, ?_, key⟩
  rw [mem_successors_iff, rests]
  exact ⟨first, tail, l, rest, split, picked, tie, named.symm, rfl⟩

theorem standard_of_mem_successors {a b : Arrangement} {standard : Literal}
    (successor : (standard, b) ∈ a.successors symbols) : b.standard = a.standard ++ [standard] := by
  obtain ⟨_, _, l, rest, -, -, -, rfl, rfl⟩ := mem_successors_iff.mp successor
  rfl

theorem Reached.length_standard {n : Nat} {a : Arrangement} (reached : Reached symbols sorted n a) :
    a.standard.length = n := by
  rw [a.standardized, standardForm, List.length_map, reached.length]

/-- What the frontier stands for: all arrangements of its length, as far as the least standard form is
concerned. -/
structure Leads (symbols : Symbols) (sorted : List Literal) (n : Nat) : Prop where
  uniform : ∀ a ∈ frontier symbols sorted n, ∀ b ∈ frontier symbols sorted n, a.standard = b.standard
  covers : ∀ b, Reached symbols sorted n b → ∃ a ∈ frontier symbols sorted n,
    List.compareLex (Literal.compareExact symbols) a.standard b.standard = .lt ∨
      a.standard = b.standard ∧ a.key = b.key

section Step

variable (inTable : ∀ l ∈ sorted, l.Over symbols)

include inTable

theorem over_of_mem_successors {n : Nat} {a b : Arrangement} {standard : Literal}
    (reached : Reached symbols sorted n a) (successor : (standard, b) ∈ a.successors symbols) :
    standard.Over symbols := by
  obtain ⟨_, _, l, rest, -, picked, -, rfl, rfl⟩ := mem_successors_iff.mp successor
  have member : l ∈ a.rest := (perm_of_mem_picks picked).subset List.mem_cons_self
  exact Literal.over_rename.mpr (inTable l (reached.mem member))

theorem Leads.uniform_succ {n : Nat} (leads : Leads symbols sorted n) :
    ∀ a ∈ frontier symbols sorted (n + 1), ∀ b ∈ frontier symbols sorted (n + 1),
      a.standard = b.standard := by
  intro a first b second
  obtain ⟨a₀, inside, s, leftNext, leftLeast⟩ := mem_extend first
  obtain ⟨b₀, within, t, rightNext, rightLeast⟩ := mem_extend second
  obtain ⟨leftMember, leftBelow⟩ := mem_minima_iff.mp leftLeast
  obtain ⟨rightMember, rightBelow⟩ := mem_minima_iff.mp rightLeast
  have tie : s.compareExact symbols t = .eq :=
    Std.OrientedCmp.isLE_antisymm (leftBelow _ rightMember) (rightBelow _ leftMember)
  have same : s = t := (Literal.compareExact_eq_iff
    (over_of_mem_successors inTable (reached_of_mem_frontier inside) leftNext)
    (over_of_mem_successors inTable (reached_of_mem_frontier within) rightNext)).mp tie
  rw [standard_of_mem_successors leftNext, standard_of_mem_successors rightNext,
    leads.uniform a₀ inside b₀ within, same]

theorem Leads.covers_succ {n : Nat} (leads : Leads symbols sorted n) {b : Arrangement}
    (reached : Reached symbols sorted (n + 1) b) : ∃ a ∈ frontier symbols sorted (n + 1),
      List.compareLex (Literal.compareExact symbols) a.standard b.standard = .lt ∨
        a.standard = b.standard ∧ a.key = b.key := by
  cases reached with
  | @place _ before _ t reachedBefore successor =>
      obtain ⟨a, inside, relation⟩ := leads.covers before reachedBefore
      have reachedA := reached_of_mem_frontier inside
      have lengths : a.standard.length = before.standard.length := by
        rw [reachedA.length_standard, reachedBefore.length_standard]
      have more : a.rest ≠ [] := by
        obtain ⟨first, tail, -, -, split, -⟩ := mem_successors_iff.mp successor
        have left := reachedA.length_rest
        have right := reachedBefore.length_rest
        rw [split, List.length_cons] at right
        intro none
        rw [none, List.length_nil] at left
        omega
      -- some arrangement `c` of the new frontier; its standard form is that of all of them
      obtain ⟨c, member⟩ := List.exists_mem_of_ne_nil _ (extend_ne_nil symbols inside more)
      obtain ⟨c₀, within, s, next, least⟩ := mem_extend member
      have standardC : c.standard = a.standard ++ [s] := by
        rw [standard_of_mem_successors next, leads.uniform c₀ within a inside]
      have standardB := standard_of_mem_successors successor
      rcases relation with less | ⟨standards, keys⟩
      · refine ⟨c, member, .inl ?_⟩
        rw [standardC, standardB, compareLex_append _ lengths, less]
        rfl
      · obtain ⟨d, successorA, key⟩ := exists_successor_agree standards keys successor
        have listed := List.mem_flatMap.mpr ⟨a, inside, successorA⟩
        have prefixes : List.compareLex (Literal.compareExact symbols) a.standard before.standard = .eq := by
          rw [standards]
          exact Std.ReflCmp.compare_self
        cases order : s.compareExact symbols t with
        | lt =>
            refine ⟨c, member, .inl ?_⟩
            rw [standardC, standardB, compareLex_append _ lengths, prefixes, order]
            rfl
        | eq =>
            have kept := mem_minima_of_tie least listed order
            obtain ⟨e, inE, keyE⟩ := exists_mem_distinctBy Arrangement.key
              (List.mem_map_of_mem (f := Prod.snd) kept)
            refine ⟨e, inE, .inr ⟨?_, keyE.trans key⟩⟩
            have same : s = t := (Literal.compareExact_eq_iff
              (over_of_mem_successors inTable (reached_of_mem_frontier within) next)
              (over_of_mem_successors inTable reachedBefore successor)).mp order
            rw [leads.uniform_succ inTable e inE c member, standardC, standardB, standards, same]
        | gt =>
            have below := (mem_minima_iff.mp least).2 _ listed
            rw [order] at below
            exact absurd below (by decide)

theorem leads (n : Nat) : Leads symbols sorted n := by
  induction n with
  | zero =>
      refine ⟨?_, ?_⟩
      · intro a first b second
        rw [frontier, List.mem_singleton] at first second
        rw [first, second]
      · intro b reached
        cases reached
        exact ⟨_, List.mem_singleton.mpr rfl, .inr ⟨rfl, rfl⟩⟩
  | succ n ih => exact ⟨ih.uniform_succ inTable, fun b => ih.covers_succ inTable⟩

theorem best_isLE_reached {b : Arrangement} (reached : Reached symbols sorted sorted.length b) :
    (List.compareLex (Literal.compareExact symbols) (best symbols sorted).standard b.standard).isLE := by
  obtain ⟨a, member, relation⟩ := (leads inTable sorted.length).covers b reached
  rw [(leads inTable sorted.length).uniform _ (best_mem symbols sorted) a member]
  rcases relation with less | ⟨same, -⟩
  · exact Ordering.isLE_of_eq_lt less
  · rw [same]
    exact Ordering.isLE_of_eq_eq Std.ReflCmp.compare_self

end Step

/-- The literals are sorted in the order that does not see variables. -/
def Sorted (symbols : Symbols) (literals : List Literal) : Prop :=
  literals.Pairwise fun l r => (l.compare symbols r).isLE

theorem sorted_mergeSort (symbols : Symbols) (literals : List Literal) :
    Sorted symbols (literals.mergeSort fun l r => (l.compare symbols r).isLE) := by
  apply List.pairwise_mergeSort
  · intro l r s
    exact Std.TransCmp.isLE_trans
  · intro l r
    cases order : l.compare symbols r with
    | lt => rfl
    | eq => rfl
    | gt => rw [Std.OrientedCmp.lt_of_gt order]; rfl

theorem Sorted.head_isLE {first l : Literal} {tail : List Literal}
    (ordered : Sorted symbols (first :: tail)) (member : l ∈ first :: tail) :
    (first.compare symbols l).isLE := by
  rcases List.mem_cons.mp member with same | later
  · rw [same]
    exact Ordering.isLE_of_eq_eq Std.ReflCmp.compare_self
  · exact List.rel_of_pairwise_cons ordered later

theorem Reached.keepsOrder {n : Nat} {a : Arrangement} (ordered : Sorted symbols sorted)
    (reached : Reached symbols sorted n a) : Sorted symbols (a.chosen ++ a.rest) := by
  induction reached with
  | start => exact ordered
  | @place n a b standard _ successor ih =>
      obtain ⟨first, tail, l, rest, split, picked, tie, -, rfl⟩ := mem_successors_iff.mp successor
      obtain ⟨before, after, across⟩ := List.pairwise_append.mp ih
      have perm := perm_of_mem_picks picked
      have placed : Sorted symbols (l :: rest) := by
        refine List.pairwise_cons.mpr ⟨fun r later => ?_, after.sublist (sublist_of_mem_picks picked)⟩
        have member : r ∈ a.rest := perm.subset (List.mem_cons_of_mem l later)
        rw [split] at after member
        exact Std.TransCmp.isLE_trans (Ordering.isLE_of_eq_eq tie) (Sorted.head_isLE after member)
      change Sorted symbols ((a.chosen ++ [l]) ++ rest)
      rw [← List.append_cons]
      refine List.pairwise_append.mpr ⟨before, placed, fun c chosen r later => ?_⟩
      exact across c chosen r (perm.subset later)

theorem best_sorted (ordered : Sorted symbols sorted) : Sorted symbols (best symbols sorted).chosen := by
  have reached := reached_of_mem_frontier (best_mem symbols sorted)
  have whole := reached.keepsOrder ordered
  rwa [reached.rest_eq_nil, List.append_nil] at whole

/-- Every sorted order of the literals that are left can follow an arrangement. -/
theorem Reached.exists_append {n : Nat} {a : Arrangement} (reached : Reached symbols sorted n a)
    {order : List Literal} (sortedRest : Sorted symbols a.rest) (perm : order.Perm a.rest)
    (sortedOrder : Sorted symbols order) :
    ∃ b, Reached symbols sorted (n + order.length) b ∧ b.chosen = a.chosen ++ order := by
  induction order generalizing n a with
  | nil => exact ⟨a, reached, (List.append_nil _).symm⟩
  | cons l order ih =>
      have member : l ∈ a.rest := perm.subset List.mem_cons_self
      obtain ⟨rest, picked⟩ := exists_mem_picks member
      obtain ⟨first, tail, split⟩ := List.exists_cons_of_ne_nil (List.ne_nil_of_mem member)
      have tie : l.compare symbols first = .eq := by
        -- `l` comes first in one order of these literals and `first` in another
        have below := sortedOrder.head_isLE (perm.symm.subset (show first ∈ a.rest by simp [split]))
        have above : (first.compare symbols l).isLE := by
          rw [split] at member sortedRest
          exact sortedRest.head_isLE member
        exact Std.OrientedCmp.isLE_antisymm below above
      have successor : ((a.place l rest).1, (a.place l rest).2) ∈ a.successors symbols :=
        mem_successors_iff.mpr ⟨first, tail, l, rest, split, picked, tie, rfl, rfl⟩
      have sortedTail : Sorted symbols rest := List.Pairwise.sublist (sublist_of_mem_picks picked) sortedRest
      have permTail : order.Perm rest := (perm.trans (perm_of_mem_picks picked).symm).cons_inv
      obtain ⟨b, reachedB, chosen⟩ := ih (reached.place successor) sortedTail permTail
        (List.Pairwise.of_cons sortedOrder)
      refine ⟨b, ?_, ?_⟩
      · rwa [List.length_cons, Nat.add_comm order.length, ← Nat.add_assoc]
      · rw [chosen, List.append_cons]
        rfl

/-- No sorted order of the literals has a standard form less than the canonical arrangement's. -/
theorem best_isLE (inTable : ∀ l ∈ sorted, l.Over symbols) (ordered : Sorted symbols sorted)
    {order : List Literal} (perm : order.Perm sorted) (sortedOrder : Sorted symbols order) :
    (List.compareLex (Literal.compareExact symbols) (best symbols sorted).standard
      (standardForm order)).isLE := by
  obtain ⟨b, reached, chosen⟩ := Reached.start.exists_append ordered perm sortedOrder
  rw [Nat.zero_add, perm.length_eq] at reached
  have least := best_isLE_reached inTable reached
  rwa [b.standardized, chosen] at least

end Arrangement

end Refutation
