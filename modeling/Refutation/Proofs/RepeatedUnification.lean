import Refutation.Proofs.Dereferencing

/-!
Unifying terms that are equal already. If the two sides of every equation are the same term when they are read through
the bindings, no step binds a variable: a bound one gives way to its value, which is read as the variable is, an unbound
one meets a term that is read as the variable itself, and applications come apart into equations of the same kind. So
unification gives the bindings back as they are. What unification has made equal is such a case, in either order.
-/

namespace Refutation

namespace Unification

open Bindings

/-- The two sides of every equation are the same term when they are read through the bindings. -/
def Balanced (m : Bindings) (pending : List Equation) : Prop := ∀ e ∈ pending, m.apply e.1 = m.apply e.2

variable {m m' : Bindings} {x : VarId} {s t : Term} {rest pending : List Equation} {state : State}

theorem balanced_cons : Balanced m ((s, t) :: rest) ↔ m.apply s = m.apply t ∧ Balanced m rest :=
  List.forall_mem_cons

theorem balanced_append : Balanced m (pending ++ rest) ↔ Balanced m pending ∧ Balanced m rest :=
  List.forall_mem_append

theorem balanced_zip {ss ts : List Term} (equal : ss.map m.apply = ts.map m.apply) : Balanced m (ss.zip ts) := by
  have lengths : ss.length = ts.length := by simpa using congrArg List.length equal
  exact (forall_mem_zip_iff m.image ss ts lengths).mpr equal

/-- A variable that is read as the other side is has nothing to bind. -/
theorem eliminate_of_balanced (solved : m.Solved) (equal : m.image x = m.apply t) (others : Balanced m rest) :
    ∃ pending, eliminate m x t rest = some ⟨m, pending⟩ ∧ Balanced m pending := by
  unfold eliminate
  cases found : m.get? x with
  | some value =>
      rw [image_of_bound found] at equal
      have read : m.apply value = m.apply t := by rw [solved.apply_image found, equal]
      exact ⟨(value, t) :: rest, rfl, balanced_cons.mpr ⟨read, others⟩⟩
  | none =>
      rw [image_of_unbound found] at equal
      exact ⟨rest, if_pos equal.symm, others⟩

theorem stepOn_of_balanced (solved : m.Solved) (balanced : Balanced m ((s, t) :: rest)) :
    ∃ pending, stepOn m rest s t = some ⟨m, pending⟩ ∧ Balanced m pending := by
  obtain ⟨equal, others⟩ := balanced_cons.mp balanced
  unfold stepOn
  split
  · exact eliminate_of_balanced solved (by rwa [apply_var] at equal) others
  · exact eliminate_of_balanced solved (by rw [equal, apply_var]) others
  · next c d =>
      have same : c = d := by simpa using equal
      exact ⟨rest, if_pos same, others⟩
  · next f ss g ts =>
      rw [apply_app, apply_app, Term.app.injEq] at equal
      have lengths : ss.length = ts.length := by simpa using congrArg List.length equal.2
      exact ⟨ss.zip ts ++ rest, if_pos ⟨equal.1, lengths⟩, balanced_append.mpr ⟨balanced_zip equal.2, others⟩⟩
  · simp at equal
  · simp at equal

/-- A run whose equations hold already ends with the bindings that it began with. -/
theorem solve_of_balanced (m : Bindings) (solved : m.Solved) (pending : List Equation)
    (balanced : Balanced m pending) : solve m solved pending = some m := by
  fun_induction solve m solved pending with
  | case1 m solved => rfl
  | case2 m solved s t rest clash =>
      obtain ⟨_, step, -⟩ := stepOn_of_balanced solved balanced
      rw [step] at clash
      cases clash
  | case3 m solved s t rest state next ih =>
      obtain ⟨pending, step, left⟩ := stepOn_of_balanced solved balanced
      rw [step] at next
      cases next
      exact ih left

theorem isBound_eliminate (done : eliminate m x t rest = some state) {y : VarId} (bound : m.isBound y = true) :
    state.bindings.isBound y = true := by
  rcases eliminate_cases done with ⟨_, -, rfl⟩ | ⟨-, -, rfl⟩ | ⟨-, -, -, rfl⟩
  · exact bound
  · exact bound
  · exact (m.isBound_bind x y t).mpr (.inr bound)

theorem isBound_stepOn (done : stepOn m rest s t = some state) {y : VarId} (bound : m.isBound y = true) :
    state.bindings.isBound y = true := by
  rcases stepOn_cases done with ⟨_, -, first⟩ | ⟨_, -, -, first⟩ | ⟨_, -, -, rfl⟩ | ⟨_, _, _, -, -, -, rfl⟩
  · exact isBound_eliminate first bound
  · exact isBound_eliminate first bound
  · exact bound
  · exact bound

/-- A run sets no variable free. -/
theorem isBound_solve (solved : m.Solved) (pending : List Equation) (found : solve m solved pending = some m')
    {y : VarId} (bound : m.isBound y = true) : m'.isBound y = true := by
  fun_induction solve m solved pending with
  | case1 m solved =>
      cases found
      exact bound
  | case2 => cases found
  | case3 m solved s t rest state next ih => exact ih found (isBound_stepOn next bound)

end Unification

namespace Bindings

variable {m m' : Bindings} {s t : Term}

theorem Solved.unify_of_equal (solved : m.Solved) (equal : m.apply s = m.apply t) : m.unify s t = some m := by
  rw [solved.unify_eq]
  exact Unification.solve_of_balanced m solved _ (List.forall_mem_singleton.mpr equal)

theorem Solved.isBound_unify (solved : m.Solved) (found : m.unify s t = some m') {y : VarId}
    (bound : m.isBound y = true) : m'.isBound y = true := by
  rw [solved.unify_eq] at found
  exact Unification.isBound_solve solved _ found bound

/-- Under bindings that come about by admitted calls, terms that are read as the same term unify without any change.
So a unifier is found again when the terms are unified once more, in either order, and it binds every variable that was
bound before. -/
theorem Built.unify_unchanged {m : Bindings} (built : m.Built) (s t : Term) :
    (m.apply s = m.apply t → m.unify s t = some m) ∧
    ∀ m', m.unify s t = some m' → m'.unify s t = some m' ∧ m'.unify t s = some m' ∧
      ∀ y, m.isBound y = true → m'.isBound y = true := by
  have solved := built.solved
  refine ⟨solved.unify_of_equal, fun m' found => ?_⟩
  have equal := solved.apply_unify found
  have solved' := solved.unify_solved found
  exact ⟨solved'.unify_of_equal equal, solved'.unify_of_equal equal.symm, fun y => solved.isBound_unify found⟩

/-- With `x₀` bound to `f(x₁)` and `x₂` to `x₀`, `g(x₀, x₂)` and `g(x₂, f(x₁))` are equal already. Under the same
bindings `g(x₁, x₃)` and `g(x₃, x₁)` unify by one alias, and the second argument does not turn it round. -/
theorem unify_unchanged_alias :
    let m := (Bindings.empty.bind 0 (.app 5 [.var 1])).bind 2 (.var 0)
    m.Built ∧
    (m.apply (.app 6 [.var 0, .var 2]) = m.apply (.app 6 [.var 2, .app 5 [.var 1]]) ∧
      m.unify (.app 6 [.var 0, .var 2]) (.app 6 [.var 2, .app 5 [.var 1]]) = some m) ∧
    ∃ m', m.unify (.app 6 [.var 1, .var 3]) (.app 6 [.var 3, .var 1]) = some m' ∧
      m'.unify (.app 6 [.var 1, .var 3]) (.app 6 [.var 3, .var 1]) = some m' ∧
      m'.unify (.app 6 [.var 3, .var 1]) (.app 6 [.var 1, .var 3]) = some m' ∧
      ∀ y, m.isBound y = true → m'.isBound y = true := by
  intro m
  have built : m.Built := .bind (.bind .empty (by decide)) (by decide)
  have equal : m.apply (.app 6 [.var 0, .var 2]) = m.apply (.app 6 [.var 2, .app 5 [.var 1]]) := by decide
  -- `x₁` and `x₃` have to be the same term
  have solution : m.SolvedBy fun x => if x = 1 ∨ x = 3 then .const 7 else .app 5 [.const 7] :=
    (solvedBy_bind (by decide) _ _).mpr ⟨(solvedBy_bind rfl _ _).mpr ⟨solvedBy_empty _, by simp⟩, by simp⟩
  have common : (Term.app 6 [.var 1, .var 3]).subst (fun x => if x = 1 ∨ x = 3 then .const 7 else .app 5 [.const 7]) =
      (Term.app 6 [.var 3, .var 1]).subst fun x => if x = 1 ∨ x = 3 then .const 7 else .app 5 [.const 7] := by simp
  obtain ⟨m', found⟩ := built.solved.exists_unify solution common
  exact ⟨built, ⟨equal, (built.unify_unchanged _ _).1 equal⟩, m', found, (built.unify_unchanged _ _).2 m' found⟩

end Bindings

end Refutation
