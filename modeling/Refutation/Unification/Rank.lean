import Refutation.Naming
import Refutation.Unification.Step

/-!
Why unification ends. The equations of a state, read through its bindings, have a number of distinct
variables, a total size, and a number of sides that are bound variables. A step that binds lowers the
first; a step that drops or splits an equation keeps the first and lowers the second; a step that
looks a bound variable up changes neither of them and lowers the third.

Main statements: `stepOn_solved` and `stepOn_rank_lt`.
-/

namespace Refutation.Unification

/-- The variables of the pending equations read through the bindings. -/
def State.vars (state : State) : List VarId :=
  state.pending.flatMap fun e => (state.bindings.apply e.1).vars ++ (state.bindings.apply e.2).vars

/-- Adds up a number for each side of each equation. -/
def total (measure : Term → Nat) : List Equation → Nat
  | [] => 0
  | (s, t) :: rest => measure s + measure t + total measure rest

theorem total_append (measure : Term → Nat) (left right : List Equation) :
    total measure (left ++ right) = total measure left + total measure right := by
  induction left with
  | nil => simp [total]
  | cons e rest ih =>
      rw [List.cons_append, total, total, ih]
      omega

/-- The size of the pending equations read through the bindings. -/
def State.weight (state : State) : Nat := total (fun t => (state.bindings.apply t).size) state.pending

/-- One for a variable that is bound, zero for any other term. -/
def boundHead (m : Bindings) : Term → Nat
  | .var x => if m.isBound x then 1 else 0
  | _ => 0

def State.boundHeads (state : State) : Nat := total (boundHead state.bindings) state.pending

def State.rank (state : State) : Nat × Nat × Nat :=
  ((Naming.ofList state.vars).size, state.weight, state.boundHeads)

/-- Ranks are compared from the left. -/
abbrev RankLt : Nat × Nat × Nat → Nat × Nat × Nat → Prop :=
  Prod.Lex (· < ·) (Prod.Lex (· < ·) (· < ·))

private theorem rank_lt_of_variables {a b : Nat × Nat × Nat} (fewer : a.1 < b.1) : RankLt a b := by
  obtain ⟨a₁, a₂⟩ := a
  obtain ⟨b₁, b₂⟩ := b
  exact .left _ _ fewer

private theorem rank_lt_of_weight {a b : Nat × Nat × Nat} (noMore : a.1 ≤ b.1) (lighter : a.2.1 < b.2.1) :
    RankLt a b := by
  obtain ⟨a₁, a₂, a₃⟩ := a
  obtain ⟨b₁, b₂, b₃⟩ := b
  rcases Nat.lt_or_eq_of_le noMore with fewer | same
  · exact .left _ _ fewer
  · subst same
    exact .right _ (.left _ _ lighter)

private theorem rank_lt_of_heads {a b : Nat × Nat × Nat} (sameVars : a.1 = b.1) (sameWeight : a.2.1 = b.2.1)
    (fewer : a.2.2 < b.2.2) : RankLt a b := by
  obtain ⟨a₁, a₂, a₃⟩ := a
  obtain ⟨b₁, b₂, b₃⟩ := b
  subst sameVars sameWeight
  exact .right _ (.right _ fewer)

private theorem drop_rank_lt (m : Bindings) (e : Equation) (rest : List Equation) :
    RankLt (State.rank ⟨m, rest⟩) (State.rank ⟨m, e :: rest⟩) := by
  apply rank_lt_of_weight
  · apply Naming.size_ofList_le
    intro y member
    rw [State.vars, List.flatMap_cons, List.mem_append]
    exact .inr member
  · have positive := (m.apply e.1).size_pos
    simp only [State.rank, State.weight, total]
    omega

private theorem bind_rank_lt {m : Bindings} {x : VarId} {t : Term} (rest : List Equation)
    (e : Equation) (sides : e = (.var x, t) ∨ e = (t, .var x)) (unbound : m.get? x = none)
    (absent : x ∉ (m.apply t).vars) :
    RankLt (State.rank ⟨m.bind x t, rest⟩) (State.rank ⟨m, e :: rest⟩) := by
  have itself : x ∈ (State.mk m (e :: rest)).vars := by
    rw [State.vars, List.flatMap_cons, List.mem_append, List.mem_append]
    rcases sides with rfl | rfl <;> simp [Bindings.image_of_unbound unbound]
  have inTerm : ∀ y ∈ (m.apply t).vars, y ∈ (State.mk m (e :: rest)).vars := by
    intro y occurs
    rw [State.vars, List.flatMap_cons, List.mem_append, List.mem_append]
    rcases sides with rfl | rfl <;> simp [occurs]
  have old : ∀ y ∈ (State.mk (m.bind x t) rest).vars,
      y ∈ (m.apply t).vars ∨ (y ∈ (State.mk m rest).vars ∧ y ≠ x) := by
    intro y member
    simp only [State.vars, List.mem_flatMap, List.mem_append, Bindings.apply_bind unbound] at member ⊢
    obtain ⟨d, inRest, occurs⟩ := member
    rcases occurs with left | right
    · rcases Bindings.mem_vars_single left with inValue | ⟨kept, other⟩
      · exact .inl inValue
      · exact .inr ⟨⟨d, inRest, .inl kept⟩, other⟩
    · rcases Bindings.mem_vars_single right with inValue | ⟨kept, other⟩
      · exact .inl inValue
      · exact .inr ⟨⟨d, inRest, .inr kept⟩, other⟩
  apply rank_lt_of_variables
  apply Naming.size_ofList_lt (x := x) _ itself
  · intro member
    rcases old x member with inValue | ⟨-, other⟩
    · exact absent inValue
    · exact other rfl
  · intro y member
    rcases old y member with inValue | ⟨kept, -⟩
    · exact inTerm y inValue
    · rw [State.vars, List.flatMap_cons, List.mem_append]
      exact .inr kept

private theorem lookup_rank_lt {m : Bindings} (solved : m.Solved) {x : VarId} {value t : Term}
    (rest : List Equation) (e : Equation) (sides : e = (.var x, t) ∨ e = (t, .var x))
    (bound : m.get? x = some value) :
    RankLt (State.rank ⟨m, (value, t) :: rest⟩) (State.rank ⟨m, e :: rest⟩) := by
  have image : m.apply (.var x) = m.apply value := by
    rw [Bindings.apply_var, Bindings.image_of_bound bound, solved.apply_image bound]
  have head : boundHead m value = 0 := by
    cases value with
    | const c => rfl
    | app f args => rfl
    | var y =>
        have free := solved.unbound bound (y := y) (by simp)
        simp [boundHead, Bindings.isBound, free]
  have varHead : boundHead m (.var x) = 1 := by
    simp [boundHead, Bindings.isBound, bound]
  apply rank_lt_of_heads
  · apply Nat.le_antisymm <;> apply Naming.size_ofList_le <;> intro y <;>
      rcases sides with rfl | rfl <;>
      simp only [State.vars, List.flatMap_cons, List.mem_append, image] <;>
      rintro ((a | b) | c) <;> simp_all
  · rcases sides with rfl | rfl <;>
      simp only [State.rank, State.weight, total, image]
    omega
  · rcases sides with rfl | rfl <;>
      simp only [State.rank, State.boundHeads, total, head, varHead] <;> omega

private theorem eliminate_facts {m : Bindings} (solved : m.Solved) {x : VarId} {t : Term}
    {rest : List Equation} (e : Equation) (sides : e = (.var x, t) ∨ e = (t, .var x)) {state : State}
    (done : eliminate m x t rest = some state) :
    state.bindings.Solved ∧ RankLt state.rank (State.rank ⟨m, e :: rest⟩) := by
  rcases eliminate_cases done with ⟨value, bound, rfl⟩ | ⟨-, -, rfl⟩ | ⟨unbound, -, absent, rfl⟩
  · exact ⟨solved, lookup_rank_lt solved rest e sides bound⟩
  · exact ⟨solved, drop_rank_lt m e rest⟩
  · exact ⟨solved.bind unbound absent, bind_rank_lt rest e sides unbound absent⟩

private theorem zip_variables (m : Bindings) (ss ts : List Term) (y : VarId)
    (member : y ∈ State.vars ⟨m, ss.zip ts⟩) :
    y ∈ (ss.map m.apply).flatMap Term.vars ∨ y ∈ (ts.map m.apply).flatMap Term.vars := by
  simp only [State.vars, List.mem_flatMap, List.mem_append, List.mem_map] at member ⊢
  obtain ⟨⟨s, t⟩, inZip, occurs⟩ := member
  have sides := List.of_mem_zip inZip
  rcases occurs with left | right
  · exact .inl ⟨_, ⟨s, sides.1, rfl⟩, left⟩
  · exact .inr ⟨_, ⟨t, sides.2, rfl⟩, right⟩

private theorem zip_weight (m : Bindings) (ss ts : List Term) :
    State.weight ⟨m, ss.zip ts⟩ ≤ Term.sizeAll (ss.map m.apply) + Term.sizeAll (ts.map m.apply) := by
  induction ss generalizing ts with
  | nil => simp [State.weight, total]
  | cons s ss ih =>
      cases ts with
      | nil => simp [State.weight, total]
      | cons t ts =>
          have tail := ih ts
          simp only [State.weight, List.zip_cons_cons, List.map_cons, total, Term.sizeAll] at tail ⊢
          omega

private theorem split_rank_lt (m : Bindings) (f g : SymbolId) (ss ts : List Term)
    (rest : List Equation) :
    RankLt (State.rank ⟨m, ss.zip ts ++ rest⟩) (State.rank ⟨m, (.app f ss, .app g ts) :: rest⟩) := by
  apply rank_lt_of_weight
  · apply Naming.size_ofList_le
    intro y member
    simp only [State.vars, List.flatMap_append, List.flatMap_cons, List.mem_append,
      Bindings.apply_app, Term.vars_app] at member ⊢
    rcases member with inZip | inRest
    · exact .inl (zip_variables m ss ts y inZip)
    · exact .inr inRest
  · have args := zip_weight m ss ts
    simp only [State.rank, State.weight, total, total_append, Bindings.apply_app, Term.size] at args ⊢
    omega

private theorem stepOn_facts {m : Bindings} (solved : m.Solved) {s t : Term} {rest : List Equation}
    {state : State} (done : stepOn m rest s t = some state) :
    state.bindings.Solved ∧ RankLt state.rank (State.rank ⟨m, (s, t) :: rest⟩) := by
  rcases stepOn_cases done with ⟨x, rfl, left⟩ | ⟨y, rfl, -, right⟩ | ⟨c, rfl, rfl, rfl⟩ | ⟨f, ss, ts, rfl, rfl, -, rfl⟩
  · exact eliminate_facts solved _ (.inl rfl) left
  · exact eliminate_facts solved _ (.inr rfl) right
  · exact ⟨solved, drop_rank_lt m _ rest⟩
  · exact ⟨solved, split_rank_lt m f f ss ts rest⟩

/-- A step keeps the bindings solved. -/
theorem stepOn_solved {m : Bindings} (solved : m.Solved) {s t : Term} {rest : List Equation}
    {state : State} (done : stepOn m rest s t = some state) : state.bindings.Solved :=
  (stepOn_facts solved done).1

/-- A step lowers the rank. -/
theorem stepOn_rank_lt {m : Bindings} (solved : m.Solved) {s t : Term} {rest : List Equation}
    {state : State} (done : stepOn m rest s t = some state) :
    RankLt state.rank (State.rank ⟨m, (s, t) :: rest⟩) :=
  (stepOn_facts solved done).2

end Refutation.Unification
