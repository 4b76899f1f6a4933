import Std.Data.HashSet

/-!
Selecting from lists: every way to take one element out, the elements with the least key, and the
first element of each key.
-/

namespace Refutation

/-- Every element with the list that is left without it, in order. -/
def picks {α : Type} : List α → List (α × List α)
  | [] => []
  | a :: as => (a, as) :: (picks as).map fun p => (p.1, a :: p.2)

/-- The entries whose key is least, in order. -/
def minima {α β : Type} (cmp : β → β → Ordering) : List (β × α) → List (β × α)
  | [] => []
  | entry :: rest =>
      match minima cmp rest with
      | [] => [entry]
      | least :: others =>
          match cmp entry.1 least.1 with
          | .lt => [entry]
          | .eq => entry :: least :: others
          | .gt => least :: others

/-- The elements whose key was not met before, in order. -/
def distinctBy {α β : Type} [BEq β] [Hashable β] (key : α → β) (as : List α) : List α :=
  go ∅ as
where
  go (met : Std.HashSet β) : List α → List α
    | [] => []
    | a :: as => if met.contains (key a) then go met as else a :: go (met.insert (key a)) as

theorem map_fst_picks {α : Type} (as : List α) : (picks as).map Prod.fst = as := by
  induction as with
  | nil => rfl
  | cons a as ih =>
      rw [picks, List.map_cons, List.map_map]
      exact congrArg (a :: ·) ih

/-- What is taken out and what is left make up the list. -/
theorem perm_of_mem_picks {α : Type} {as rest : List α} {a : α} (member : (a, rest) ∈ picks as) :
    (a :: rest).Perm as := by
  induction as generalizing rest with
  | nil => exact absurd member List.not_mem_nil
  | cons b as ih =>
      rcases List.mem_cons.mp member with here | later
      · cases here
        exact .refl _
      · obtain ⟨⟨c, others⟩, inside, same⟩ := List.mem_map.mp later
        cases same
        exact (List.Perm.swap b c others).trans ((ih inside).cons b)

section Distinct

variable {α β : Type} [BEq β] [Hashable β] (key : α → β)

private theorem go_sublist (met : Std.HashSet β) (as : List α) : (distinctBy.go key met as).Sublist as := by
  induction as generalizing met with
  | nil => exact .slnil
  | cons a as ih =>
      rw [distinctBy.go]
      split
      · exact (ih met).cons a
      · exact (ih _).cons_cons a

theorem distinctBy_sublist (as : List α) : (distinctBy key as).Sublist as := go_sublist key ∅ as

variable [LawfulBEq β]

private theorem go_unmet (met : Std.HashSet β) (as : List α) :
    ∀ b ∈ distinctBy.go key met as, met.contains (key b) = false := by
  induction as generalizing met with
  | nil => intro b member; exact absurd member List.not_mem_nil
  | cons a as ih =>
      intro b member
      rw [distinctBy.go] at member
      split at member
      · exact ih met b member
      · next unmet =>
          rcases List.mem_cons.mp member with rfl | later
          · simpa using unmet
          · have both := ih _ b later
            rw [Std.HashSet.contains_insert, Bool.or_eq_false_iff] at both
            exact both.2

private theorem go_pairwise (met : Std.HashSet β) (as : List α) :
    (distinctBy.go key met as).Pairwise fun a b => key a ≠ key b := by
  induction as generalizing met with
  | nil => exact .nil
  | cons a as ih =>
      rw [distinctBy.go]
      split
      · exact ih met
      · refine List.Pairwise.cons ?_ (ih _)
        intro b member same
        have unmet := go_unmet key _ as b member
        rw [Std.HashSet.contains_insert, same] at unmet
        simp at unmet

private theorem go_represents (met : Std.HashSet β) (as : List α) :
    ∀ a ∈ as, met.contains (key a) = false → ∃ b ∈ distinctBy.go key met as, key b = key a := by
  induction as generalizing met with
  | nil => intro a member; exact absurd member List.not_mem_nil
  | cons c as ih =>
      intro a member unmet
      rw [distinctBy.go]
      split
      · next seen =>
          rcases List.mem_cons.mp member with rfl | later
          · rw [unmet] at seen
            exact absurd seen (by simp)
          · exact ih met a later unmet
      · by_cases same : key c = key a
        · exact ⟨c, List.mem_cons_self, same⟩
        · rcases List.mem_cons.mp member with rfl | later
          · exact absurd rfl same
          · have still : (met.insert (key c)).contains (key a) = false := by
              rw [Std.HashSet.contains_insert, unmet]
              simpa using same
            obtain ⟨b, kept, equal⟩ := ih _ a later still
            exact ⟨b, List.mem_cons_of_mem c kept, equal⟩

theorem distinctBy_pairwise (as : List α) : (distinctBy key as).Pairwise fun a b => key a ≠ key b :=
  go_pairwise key ∅ as

/-- Every element keeps a representative with its key. -/
theorem exists_mem_distinctBy {as : List α} {a : α} (member : a ∈ as) :
    ∃ b ∈ distinctBy key as, key b = key a :=
  go_represents key ∅ as a member Std.HashSet.contains_empty

end Distinct

end Refutation
