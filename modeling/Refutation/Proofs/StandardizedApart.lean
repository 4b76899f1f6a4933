import Mathlib.Data.List.Pairwise
import Refutation.Proofs.Progress

/-!
No two clauses of a search share a variable. A renamed clause has only variables that were issued for
it, so clauses renamed one after the other lie in consecutive blocks, and what a look adds lies above
everything that was there. Within a pass the clauses found lie above all variables that were issued when
it began, and those known lie below, so they are apart even where one was found that is known already.
-/

namespace Refutation

namespace Clause

/-- Whether every variable of a clause is in a block of numbers. -/
def Within (c : Clause) (low high : Nat) : Prop := ∀ x : Nat, x ∈ c.vars → low ≤ x ∧ x < high

/-- Whether two clauses have no variable in common. -/
def Apart (c d : Clause) : Prop := ∀ x ∈ c.vars, x ∉ d.vars

variable {c d : Clause} {low middle high : Nat}

theorem Apart.symm (apart : c.Apart d) : d.Apart c := fun x right left => apart x left right

instance : Std.Symm Apart := ⟨fun _ _ => Apart.symm⟩

theorem Within.mono (within : c.Within middle high) {top : Nat} (below : low ≤ middle) (above : high ≤ top) :
    c.Within low top := by
  intro x occurs
  have bounds := within x occurs
  omega

theorem Within.apart (lower : c.Within low middle) (upper : d.Within middle high) : c.Apart d := by
  intro x left right
  have below := lower x left
  have above := upper x right
  omega

theorem issued_rename (c : Clause) (supply : Supply) :
    (c.rename supply).2.issued = supply.issued + (Naming.ofList c.vars).size := rfl

/-- A renamed clause has only variables issued for it. -/
theorem rename_within (c : Clause) (supply : Supply) :
    (c.rename supply).1.Within supply.issued (c.rename supply).2.issued := by
  intro x occurs
  rw [vars, rename, flatMap_vars_rename] at occurs
  obtain ⟨y, inside, rfl⟩ := List.mem_map.mp occurs
  have bound := Naming.index_lt (Naming.mem_ofList.mpr inside)
  rw [issued_rename]
  exact ⟨Nat.le_add_right _ _, Nat.add_lt_add_left bound _⟩

theorem issued_le_renameAll (cs : List Clause) (supply : Supply) :
    supply.issued ≤ (renameAll cs supply).2.issued := by
  induction cs generalizing supply with
  | nil => exact Nat.le_refl _
  | cons c cs ih =>
      have later := ih (c.rename supply).2
      rw [issued_rename] at later
      show supply.issued ≤ (renameAll cs (c.rename supply).2).2.issued
      omega

theorem renameAll_within (cs : List Clause) (supply : Supply) :
    ∀ r ∈ (renameAll cs supply).1, r.Within supply.issued (renameAll cs supply).2.issued := by
  induction cs generalizing supply with
  | nil => exact fun r member => absurd member List.not_mem_nil
  | cons c cs ih =>
      intro r member
      have first : supply.issued ≤ (c.rename supply).2.issued := by
        rw [issued_rename]
        omega
      rcases List.mem_cons.mp member with rfl | later
      · exact (c.rename_within supply).mono (Nat.le_refl _) (issued_le_renameAll cs _)
      · exact (ih (c.rename supply).2 r later).mono first (Nat.le_refl _)

theorem resolve_within (symbols : Symbols) (c d : Clause) (supply : Supply) :
    ∀ r ∈ (c.resolve symbols d supply).1,
      r.Within supply.issued (c.resolve symbols d supply).2.issued := fun r member =>
  renameAll_within _ supply r ((distinctBy_sublist canonical _).subset member)

theorem pairwise_apart_renameAll (cs : List Clause) (supply : Supply) :
    (renameAll cs supply).1.Pairwise Apart := by
  induction cs generalizing supply with
  | nil => exact .nil
  | cons c cs ih =>
      refine .cons (fun r later => ?_) (ih (c.rename supply).2)
      exact (c.rename_within supply).apart (renameAll_within cs (c.rename supply).2 r later)

end Clause

namespace Search

variable {policy : Policy} {symbols : Symbols} {clock : Clock}

/-- Whether no two clauses of a search share a variable, and all their variables were issued. -/
structure StandardizedApart (search : Search) : Prop where
  apart : ∀ c ∈ search.clauses, ∀ d ∈ search.clauses, c ≠ d → c.Apart d
  issued : ∀ c ∈ search.clauses, c.Within 0 search.supply.issued

theorem StandardizedApart.of_subset {before after : Search} (sub : after.clauses ⊆ before.clauses)
    (supply : after.supply = before.supply) (standardized : before.StandardizedApart) :
    after.StandardizedApart := by
  refine ⟨fun c left d right => standardized.apart c (sub left) d (sub right), fun c member => ?_⟩
  rw [supply]
  exact standardized.issued c (sub member)

/-- What a look adds lies above all clauses that were there, whether or not it ends the search. -/
theorem StandardizedApart.lookAt {before : Search} (standardized : before.StandardizedApart) (policy : Policy)
    (symbols : Symbols) (c d : Clause) : (before.lookAt policy symbols c d).search.StandardizedApart := by
  obtain ⟨supply, found⟩ := before.lookAt_found policy symbols c d
  have known := (before.lookAt_alike policy symbols c d).known
  have new : ∀ r ∈ (c.resolve symbols d before.supply).1,
      r.Within before.supply.issued (before.lookAt policy symbols c d).search.supply.issued := by
    intro r member
    rw [supply]
    exact Clause.resolve_within symbols c d before.supply r member
  have pairwise : (c.resolve symbols d before.supply).1.Pairwise Clause.Apart :=
    (Clause.pairwise_apart_renameAll _ before.supply).sublist (distinctBy_sublist Clause.canonical _)
  have more : before.supply.issued ≤ (before.lookAt policy symbols c d).search.supply.issued := by
    rw [supply]
    exact Clause.issued_le_renameAll _ before.supply
  have split : ∀ r ∈ (before.lookAt policy symbols c d).search.clauses,
      r ∈ before.clauses ∨ r ∈ (c.resolve symbols d before.supply).1 := by
    intro r member
    rw [clauses, known] at member
    rcases List.mem_append.mp member with old | recorded
    · exact .inl (List.mem_append_left _ old)
    · exact (found r recorded).imp_left (List.mem_append_right _)
  refine ⟨fun e left f right differ => ?_, fun e member => ?_⟩
  · rcases split e left with oldE | newE
    · rcases split f right with oldF | newF
      · exact standardized.apart e oldE f oldF differ
      · exact (standardized.issued e oldE).apart (new f newF)
    · rcases split f right with oldF | newF
      · exact ((standardized.issued f oldF).apart (new e newE)).symm
      · exact pairwise.forall newE newF differ
  · rcases split e member with old | added
    · exact (standardized.issued e old).mono (Nat.le_refl 0) more
    · exact (new e added).mono (Nat.zero_le _) (Nat.le_refl _)

theorem StandardizedApart.of_pass {before after : Search} (standardized : before.StandardizedApart)
    (made : before.pass policy symbols clock = .running after) : after.StandardizedApart := by
  refine pass_keeps (P := StandardizedApart) ?_ ?_ standardized made
  · exact fun s t sub supply => StandardizedApart.of_subset sub supply
  · intro s t c d _ _ look before
    have looked := before.lookAt policy symbols c d
    rwa [look] at looked

theorem StandardizedApart.of_runFor {before after : Search} {n : Nat} (standardized : before.StandardizedApart)
    (made : before.runFor policy symbols clock n = .running after) : after.StandardizedApart :=
  runFor_keeps (fun _ _ before made => before.of_pass made) made standardized

/-- Whether the clauses known lie below some number of variables and those found above it. -/
structure Layered (floor : Nat) (search : Search) : Prop where
  standardized : search.StandardizedApart
  issued : floor ≤ search.supply.issued
  known : ∀ c ∈ search.known.toList, c.Within 0 floor
  found : ∀ c ∈ search.found.toList, c.Within floor search.supply.issued

namespace Layered

variable {floor : Nat} {search : Search}

theorem pairwise_apart (layered : search.Layered floor) :
    (search.known.toList ++ search.found.toList).Pairwise Clause.Apart := by
  refine List.pairwise_append.mpr ⟨?_, ?_, fun c left d right => (layered.known c left).apart (layered.found d right)⟩
  · apply search.known.nodup_toList.pairwise_of_forall_ne
    exact fun c left d right => layered.standardized.apart c (List.mem_append_left _ left) d
      (List.mem_append_left _ right)
  · apply search.found.nodup_toList.pairwise_of_forall_ne
    exact fun c left d right => layered.standardized.apart c (List.mem_append_right _ left) d
      (List.mem_append_right _ right)

theorem beginPass (standardized : search.StandardizedApart) : search.beginPass.Layered search.supply.issued where
  standardized := standardized.of_subset search.clauses_beginPass rfl
  issued := Nat.le_refl _
  known := fun c member => standardized.issued c (List.mem_append_left _ member)
  found := fun _ member => absurd member List.not_mem_nil

theorem lookAt (layered : search.Layered floor) (policy : Policy) (symbols : Symbols) (c d : Clause) :
    (search.lookAt policy symbols c d).search.Layered floor := by
  obtain ⟨supply, found⟩ := search.lookAt_found policy symbols c d
  have more : search.supply.issued ≤ (search.lookAt policy symbols c d).search.supply.issued := by
    rw [supply]
    exact Clause.issued_le_renameAll _ search.supply
  refine ⟨layered.standardized.lookAt policy symbols c d, layered.issued.trans more, ?_, fun r member => ?_⟩
  · rw [(search.lookAt_alike policy symbols c d).known]
    exact layered.known
  · rcases found r member with old | new
    · exact (layered.found r old).mono (Nat.le_refl _) more
    · rw [supply]
      exact (Clause.resolve_within symbols c d search.supply r new).mono layered.issued (Nat.le_refl _)

theorem scan (layered : search.Layered floor) (policy : Policy) (symbols : Symbols) (clock : Clock)
    (todo : List (Clause × Clause)) : (search.scan policy symbols clock todo).search.Layered floor := by
  induction todo generalizing search with
  | nil => exact layered
  | cons pair rest ih =>
      obtain ⟨c, d⟩ := pair
      have first := layered.lookAt policy symbols c d
      rw [Search.scan_cons]
      split
      · exact layered
      · split
        · next ended =>
            rw [ended] at first
            exact first
        · next between looked =>
            rw [looked] at first
            exact ih first

end Layered

/-- The state of a search after so many passes and then so many looks at pairs; the state in which it
ended if it has ended by then. -/
def stateAfter (policy : Policy) (symbols : Symbols) (clock : Clock) (passes looks : Nat) (start : Search) :
    Search :=
  match start.runFor policy symbols clock passes with
  | .running search => (search.beginPass.scan policy symbols clock ((pairs search.snapshot).take looks)).search
  | .finished outcome => outcome.final

/-- At every moment of a search there is some number that separates the variables of the clauses known from
those of the clauses found. -/
theorem exists_layered {start : Search} (standardized : start.StandardizedApart) (policy : Policy)
    (symbols : Symbols) (clock : Clock) (passes looks : Nat) :
    ∃ floor, (start.stateAfter policy symbols clock passes looks).Layered floor := by
  unfold stateAfter
  split
  · next search made =>
      have before := standardized.of_runFor made
      exact ⟨_, (Layered.beginPass before).scan policy symbols clock _⟩
  · next outcome made =>
      obtain ⟨k, last, run, final⟩ := exists_pass_of_finished made
      have scanned := (Layered.beginPass (standardized.of_runFor run)).scan policy symbols clock
        (pairs last.snapshot)
      rw [← final_of_pass final] at scanned
      exact ⟨_, scanned⟩

end Search

theorem Problem.standardizedApart_search (p : Problem) (query : Literal) :
    (p.search query).StandardizedApart := by
  refine ⟨fun c left d right differ => ?_, fun c member => ?_⟩
  · exact (Clause.pairwise_apart_renameAll _ ⟨0⟩).forall (mem_search left) (mem_search right) differ
  · exact Clause.renameAll_within _ ⟨0⟩ c (mem_search member)

/-- At every moment of a search for a refutation no two of the clauses known and found have a variable in
common, and all their variables were issued. -/
theorem Problem.apart_throughout (p : Problem) (policy : Policy) (clock : Clock) (query : Literal)
    (passes looks : Nat) :
    let state := (p.search query).stateAfter policy p.symbols clock passes looks
    (state.known.toList ++ state.found.toList).Pairwise Clause.Apart ∧
      ∀ c ∈ state.known.toList ++ state.found.toList, ∀ x ∈ c.vars, x < state.supply.issued := by
  intro state
  obtain ⟨floor, layered⟩ := Search.exists_layered (p.standardizedApart_search query) policy p.symbols clock
    passes looks
  exact ⟨layered.pairwise_apart, fun c member x occurs => (layered.standardized.issued c member x occurs).2⟩

end Refutation
