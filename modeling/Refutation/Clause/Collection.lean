import Refutation.Clause.Basic
import Std.Data.HashMap

/-!
Sets of clauses up to renaming, in order of insertion. Of clauses that are the same the first one
stays. An index from standard forms to positions answers membership.
-/

namespace Refutation

structure ClauseSet where
  clauses : Array Clause
  positions : Std.HashMap (List Literal) Nat
  indexed : ∀ form i, positions[form]? = some i ↔ (clauses[i]?.map Clause.canonical) = some form

namespace ClauseSet

def empty : ClauseSet := ⟨#[], ∅, by simp⟩

def size (known : ClauseSet) : Nat := known.clauses.size

def toList (known : ClauseSet) : List Clause := known.clauses.toList

/-- The position of the clause that is the same as the given one. -/
def find? (known : ClauseSet) (c : Clause) : Option Nat := known.positions[c.canonical]?

def contains (known : ClauseSet) (c : Clause) : Bool := (known.find? c).isSome

private theorem push_indexed (known : ClauseSet) {c : Clause} (new : known.find? c = none)
    (form : List Literal) (i : Nat) :
    (known.positions.insert c.canonical known.size)[form]? = some i ↔
      ((known.clauses.push c)[i]?.map Clause.canonical) = some form := by
  rw [Std.HashMap.getElem?_insert, Array.getElem?_push]
  by_cases last : i = known.clauses.size
  · subst last
    rw [if_pos rfl]
    by_cases same : c.canonical = form
    · simp [same, size]
    · have outside : known.positions[form]? ≠ some known.clauses.size := by
        rw [Ne, known.indexed]
        simp
      simp [same, outside]
  · rw [if_neg last]
    by_cases same : c.canonical = form
    · subst same
      have absent := known.indexed c.canonical i
      rw [find?] at new
      rw [new] at absent
      have differs : ¬ known.size = i := fun h => last h.symm
      simp_all
    · simp [same, known.indexed]

/-- Adds a clause at the end unless the set has the same one. -/
def insert (known : ClauseSet) (c : Clause) : ClauseSet :=
  match new : known.find? c with
  | some _ => known
  | none => ⟨known.clauses.push c, known.positions.insert c.canonical known.size, push_indexed known new⟩

@[simp] theorem toList_empty : empty.toList = [] := rfl

theorem size_eq_length (known : ClauseSet) : known.size = known.toList.length := by
  simp [size, toList]

theorem find?_eq_some_iff (known : ClauseSet) (c : Clause) (i : Nat) :
    known.find? c = some i ↔ ∃ d, known.toList[i]? = some d ∧ d.Same c := by
  rw [find?, known.indexed, Option.map_eq_some_iff]
  simp [toList, Clause.Same]

theorem contains_eq_true_iff (known : ClauseSet) (c : Clause) :
    known.contains c = true ↔ ∃ d ∈ known.toList, d.Same c := by
  rw [contains, Option.isSome_iff_exists]
  constructor
  · rintro ⟨i, found⟩
    obtain ⟨d, place, same⟩ := (known.find?_eq_some_iff c i).mp found
    exact ⟨d, List.mem_of_getElem? place, same⟩
  · rintro ⟨d, member, same⟩
    obtain ⟨i, place⟩ := List.getElem?_of_mem member
    exact ⟨i, (known.find?_eq_some_iff c i).mpr ⟨d, place, same⟩⟩

theorem toList_insert (known : ClauseSet) (c : Clause) :
    (known.insert c).toList = if known.contains c then known.toList else known.toList ++ [c] := by
  unfold insert contains
  split
  · next found => simp [found]
  · next new => simp [new, toList]

/-- No two clauses of a set are the same. -/
theorem pairwise_toList (known : ClauseSet) : known.toList.Pairwise fun c d => ¬ c.Same d := by
  rw [List.pairwise_iff_getElem]
  intro i j hi hj less same
  have left := (known.find?_eq_some_iff known.toList[j] i).mpr
    ⟨known.toList[i], List.getElem?_eq_getElem hi, same⟩
  have right := (known.find?_eq_some_iff known.toList[j] j).mpr
    ⟨known.toList[j], List.getElem?_eq_getElem hj, rfl⟩
  rw [left] at right
  exact Nat.ne_of_lt less (Option.some.inj right)

def insertAll (known : ClauseSet) (cs : List Clause) : ClauseSet := cs.foldl insert known

def ofList (cs : List Clause) : ClauseSet := empty.insertAll cs

end ClauseSet

end Refutation
