import Refutation.Unification.Basic

/-!
Unification finds the most general unifier. The substitutions that solve a state, that is its bindings
and its pending equations, are the same before and after a step, and a clash has no solution. What is
left when no equation is pending are bindings whose solutions are exactly those of the problem.
-/

namespace Refutation

namespace Term

theorem size_args_le {args : List Term} {t : Term} (member : t ∈ args) : t.size ≤ sizeAll args := by
  induction args with
  | nil => exact absurd member List.not_mem_nil
  | cons first rest ih =>
      rw [sizeAll]
      rcases List.mem_cons.mp member with rfl | later
      · omega
      · have bound := ih later
        omega

theorem size_image_le {θ : VarId → Term} {x : VarId} (t : Term) (occurs : x ∈ t.vars) :
    (θ x).size ≤ (t.subst θ).size := by
  induction t using Term.induct with
  | const c => simp at occurs
  | var y =>
      rw [vars_var, List.mem_singleton] at occurs
      exact Nat.le_of_eq (by rw [subst_var, occurs])
  | app f args ih =>
      rw [vars_app, List.mem_flatMap] at occurs
      obtain ⟨t, member, inside⟩ := occurs
      have part := ih t member inside
      have whole := size_args_le (List.mem_map_of_mem (f := subst θ) member)
      rw [subst_app, size]
      omega

/-- A variable and a larger term in which it occurs have no common instance. -/
theorem image_ne_of_occurs {θ : VarId → Term} {x : VarId} {t : Term} (occurs : x ∈ t.vars)
    (other : t ≠ .var x) : θ x ≠ t.subst θ := by
  cases t with
  | const c => simp at occurs
  | var y =>
      rw [vars_var, List.mem_singleton] at occurs
      exact absurd (by rw [occurs]) other
  | app f args =>
      intro same
      rw [vars_app, List.mem_flatMap] at occurs
      obtain ⟨t, member, inside⟩ := occurs
      have part := size_image_le (θ := θ) t inside
      have whole := size_args_le (List.mem_map_of_mem (f := subst θ) member)
      have sizes := congrArg size same
      rw [subst_app, size] at sizes
      omega

end Term

/-- The substitution makes every bound variable equal to its value. -/
def Bindings.SolvedBy (m : Bindings) (θ : VarId → Term) : Prop :=
  ∀ x t, m.get? x = some t → θ x = t.subst θ

namespace Bindings

theorem solvedBy_empty (θ : VarId → Term) : Bindings.empty.SolvedBy θ := by
  intro x t bound
  rw [get?_empty] at bound
  cases bound

/-- A solution of the bindings does not see whether a term was read through them. -/
theorem SolvedBy.subst_apply {m : Bindings} {θ : VarId → Term} (solution : m.SolvedBy θ) (t : Term) :
    (m.apply t).subst θ = t.subst θ := by
  rw [apply, Term.subst_subst]
  apply Term.subst_congr
  intro x _
  cases found : m.get? x with
  | none => rw [image_of_unbound found, Term.subst_var]
  | some value => rw [image_of_bound found, ← solution x value found]

/-- Solved bindings are a solution of themselves. -/
theorem Solved.solvedBy_image {m : Bindings} (solved : m.Solved) : m.SolvedBy m.image := by
  intro x t bound
  rw [image_of_bound bound]
  exact (solved.apply_image bound).symm

private theorem subst_single_subst {θ : VarId → Term} {x : VarId} {value : Term}
    (equal : θ x = value.subst θ) (t : Term) : (t.subst (Term.single x value)).subst θ = t.subst θ := by
  rw [Term.subst_subst]
  apply Term.subst_congr
  intro y _
  by_cases same : y = x
  · rw [Term.single, if_pos same, same, equal]
  · rw [Term.single, if_neg same, Term.subst_var]

/-- A new binding adds one equation to those that a solution has to meet. -/
theorem solvedBy_bind {m : Bindings} {x : VarId} (unbound : m.get? x = none) (t : Term)
    (θ : VarId → Term) : (m.bind x t).SolvedBy θ ↔ m.SolvedBy θ ∧ θ x = t.subst θ := by
  have lookup : ∀ y, (m.bind x t).get? y = if y = x then some (m.apply t) else
      (m.get? y).map (Term.subst (Term.single x (m.apply t))) := by
    intro y
    rw [get?_bind, apply_erase_of_unbound unbound]
  constructor
  · intro solution
    have atNew : θ x = (m.apply t).subst θ := solution x _ (by rw [lookup, if_pos rfl])
    have old : m.SolvedBy θ := by
      intro y value bound
      have other : y ≠ x := by
        intro same
        rw [same, unbound] at bound
        cases bound
      have equal := solution y _ (by rw [lookup, if_neg other, bound, Option.map_some])
      rwa [subst_single_subst atNew] at equal
    exact ⟨old, by rw [atNew, old.subst_apply]⟩
  · rintro ⟨old, equal⟩ y value bound
    have atNew : θ x = (m.apply t).subst θ := by rw [equal, old.subst_apply]
    rw [lookup] at bound
    split at bound
    · next same =>
        cases bound
        rw [same, atNew]
    · obtain ⟨before, found, rfl⟩ := Option.map_eq_some_iff.mp bound
      rw [subst_single_subst atNew]
      exact old y before found

end Bindings

namespace Unification

/-- The substitution solves the bindings and every pending equation. -/
def State.SolvedBy (state : State) (θ : VarId → Term) : Prop :=
  state.bindings.SolvedBy θ ∧ ∀ e ∈ state.pending, e.1.subst θ = e.2.subst θ

theorem solvedBy_cons (m : Bindings) (s t : Term) (rest : List Equation) (θ : VarId → Term) :
    State.SolvedBy ⟨m, (s, t) :: rest⟩ θ ↔ s.subst θ = t.subst θ ∧ State.SolvedBy ⟨m, rest⟩ θ := by
  simp only [State.SolvedBy, List.forall_mem_cons]
  exact and_left_comm

theorem solvedBy_append (m : Bindings) (first rest : List Equation) (θ : VarId → Term) :
    State.SolvedBy ⟨m, first ++ rest⟩ θ ↔
      (∀ e ∈ first, e.1.subst θ = e.2.subst θ) ∧ State.SolvedBy ⟨m, rest⟩ θ := by
  simp only [State.SolvedBy, List.forall_mem_append]
  exact and_left_comm

theorem forall_mem_zip_iff (θ : VarId → Term) (ss ts : List Term) (lengths : ss.length = ts.length) :
    (∀ e ∈ ss.zip ts, e.1.subst θ = e.2.subst θ) ↔ ss.map (Term.subst θ) = ts.map (Term.subst θ) := by
  induction ss generalizing ts with
  | nil =>
      cases ts with
      | nil => simp
      | cons t ts => simp at lengths
  | cons s ss ih =>
      cases ts with
      | nil => simp at lengths
      | cons t ts =>
          have tail := ih ts (by simpa using lengths)
          simp only [List.zip_cons_cons, List.forall_mem_cons, List.map_cons, List.cons.injEq, tail]

/-- What one step makes of the solutions: it keeps them, and gives up only if there are none. -/
def Keeps (θ : VarId → Term) (before : State) (after : Option State) : Prop :=
  match after with
  | some state => state.SolvedBy θ ↔ before.SolvedBy θ
  | none => ¬ before.SolvedBy θ

theorem eliminate_keeps (m : Bindings) (x : VarId) (t : Term) (rest : List Equation)
    (θ : VarId → Term) : Keeps θ ⟨m, (.var x, t) :: rest⟩ (eliminate m x t rest) := by
  unfold eliminate
  split
  · next value bound =>
      simp only [Keeps, solvedBy_cons, Term.subst_var]
      constructor
      · rintro ⟨equal, others⟩
        exact ⟨(others.1 x value bound).trans equal, others⟩
      · rintro ⟨equal, others⟩
        exact ⟨(others.1 x value bound).symm.trans equal, others⟩
  · next unbound =>
      split
      · next itself =>
          simp only [Keeps, solvedBy_cons, Term.subst_var]
          constructor
          · intro others
            refine ⟨?_, others⟩
            rw [← others.1.subst_apply t, itself, Term.subst_var]
          · exact And.right
      · next other =>
          split
          · next inside =>
              rw [Bindings.occurs_eq_true_iff] at inside
              simp only [Keeps, solvedBy_cons, Term.subst_var]
              rintro ⟨equal, others⟩
              rw [← others.1.subst_apply t] at equal
              exact Term.image_ne_of_occurs inside other equal
          · simp only [Keeps, solvedBy_cons, Term.subst_var]
            simp only [State.SolvedBy, Bindings.solvedBy_bind unbound]
            rw [and_comm (a := m.SolvedBy θ), and_assoc]

theorem solvedBy_swap (m : Bindings) (s t : Term) (rest : List Equation) (θ : VarId → Term) :
    State.SolvedBy ⟨m, (s, t) :: rest⟩ θ ↔ State.SolvedBy ⟨m, (t, s) :: rest⟩ θ := by
  rw [solvedBy_cons, solvedBy_cons, eq_comm]

theorem keeps_swap {θ : VarId → Term} {m : Bindings} {s t : Term} {rest : List Equation}
    {after : Option State} (kept : Keeps θ ⟨m, (t, s) :: rest⟩ after) :
    Keeps θ ⟨m, (s, t) :: rest⟩ after := by
  cases after with
  | none => rwa [Keeps, solvedBy_swap]
  | some state => rwa [Keeps, solvedBy_swap]

theorem stepOn_keeps (m : Bindings) (s t : Term) (rest : List Equation) (θ : VarId → Term) :
    Keeps θ ⟨m, (s, t) :: rest⟩ (stepOn m rest s t) := by
  unfold stepOn
  split
  · exact eliminate_keeps m _ _ rest θ
  · exact keeps_swap (eliminate_keeps m _ _ rest θ)
  · next c d =>
      split
      · next same => simp [Keeps, solvedBy_cons, same]
      · next differ => simp [Keeps, solvedBy_cons, differ]
  · next f ss g ts =>
      split
      · next alike =>
          have args := forall_mem_zip_iff θ ss ts alike.2
          simp only [Keeps, solvedBy_append, solvedBy_cons, Term.subst_app, Term.app.injEq, alike.1,
            true_and, args]
      · next clash =>
          simp only [Keeps, solvedBy_cons, Term.subst_app, Term.app.injEq]
          rintro ⟨⟨functions, args⟩, -⟩
          have lengths := congrArg List.length args
          rw [List.length_map, List.length_map] at lengths
          exact clash ⟨functions, lengths⟩
  · simp [Keeps, solvedBy_cons]
  · simp [Keeps, solvedBy_cons]

/-- The run has the solutions of its first state, and fails only if there are none. -/
theorem solve_keeps (m : Bindings) (solved : m.Solved) (pending : List Equation) (θ : VarId → Term) :
    Keeps θ ⟨m, pending⟩ ((solve m solved pending).map fun m' => ⟨m', []⟩) := by
  fun_induction solve m solved pending with
  | case1 m solved => simp [Keeps]
  | case2 m solved s t rest clash =>
      have step := stepOn_keeps m s t rest θ
      rwa [clash] at step
  | case3 m solved s t rest state next ih =>
      have step := stepOn_keeps m s t rest θ
      rw [next] at step
      cases result : solve state.bindings (stepOn_solved solved next) state.pending with
      | none =>
          rw [result] at ih
          exact fun start => ih (step.mpr start)
      | some m' =>
          rw [result] at ih
          exact Iff.trans ih step

theorem solve_solved {m m' : Bindings} (solved : m.Solved) (pending : List Equation)
    (found : solve m solved pending = some m') : m'.Solved := by
  fun_induction solve m solved pending with
  | case1 m solved =>
      cases found
      exact solved
  | case2 => cases found
  | case3 m solved s t rest state next ih => exact ih found

end Unification

namespace Bindings

theorem Solved.unify_eq {m : Bindings} (solved : m.Solved) (s t : Term) :
    m.unify s t = Unification.solve m solved [(s, t)] := by
  rw [unify, dif_pos solved]

theorem Solved.unify_solved {m m' : Bindings} (solved : m.Solved) {s t : Term}
    (found : m.unify s t = some m') : m'.Solved := by
  rw [solved.unify_eq] at found
  exact Unification.solve_solved solved _ found

theorem Solved.solvedBy_unify_iff {m m' : Bindings} (solved : m.Solved) {s t : Term}
    (found : m.unify s t = some m') (θ : VarId → Term) :
    m'.SolvedBy θ ↔ m.SolvedBy θ ∧ s.subst θ = t.subst θ := by
  have run := Unification.solve_keeps m solved [(s, t)] θ
  rw [← solved.unify_eq, found] at run
  simpa [Unification.Keeps, Unification.State.SolvedBy] using run

theorem Solved.exists_unify {m : Bindings} (solved : m.Solved) {s t : Term} {θ : VarId → Term}
    (solution : m.SolvedBy θ) (equal : s.subst θ = t.subst θ) : ∃ m', m.unify s t = some m' := by
  have run := Unification.solve_keeps m solved [(s, t)] θ
  rw [← solved.unify_eq] at run
  cases found : m.unify s t with
  | some m' => exact ⟨m', rfl⟩
  | none =>
      rw [found] at run
      exact absurd ⟨solution, by simpa using equal⟩ run

/-- A unifier makes the two terms equal. -/
theorem Solved.apply_unify {m m' : Bindings} (solved : m.Solved) {s t : Term}
    (found : m.unify s t = some m') : m'.apply s = m'.apply t := by
  have itself := (solved.unify_solved found).solvedBy_image
  exact ((solved.solvedBy_unify_iff found _).mp itself).2

/-- Unification succeeds exactly on terms with a common instance under the bindings, and the solutions
of its answer are exactly the substitutions that solve the bindings and make the terms equal. -/
theorem Built.unify_mostGeneral {m : Bindings} (built : m.Built) (s t : Term) :
    ((m.unify s t).isSome ↔ ∃ θ, m.SolvedBy θ ∧ s.subst θ = t.subst θ) ∧
    ∀ m', m.unify s t = some m' →
      (∀ θ, m'.SolvedBy θ ↔ m.SolvedBy θ ∧ s.subst θ = t.subst θ) ∧ m'.apply s = m'.apply t := by
  have solved := built.solved
  refine ⟨⟨?_, ?_⟩, ?_⟩
  · intro some
    obtain ⟨m', found⟩ := Option.isSome_iff_exists.mp some
    have itself := (solved.unify_solved found).solvedBy_image
    exact ⟨m'.image, (solved.solvedBy_unify_iff found _).mp itself⟩
  · rintro ⟨θ, solution, equal⟩
    exact Option.isSome_iff_exists.mpr (solved.exists_unify solution equal)
  · intro m' found
    exact ⟨solved.solvedBy_unify_iff found, solved.apply_unify found⟩

/-- With `x₀` bound to `f(x₁)`, `g(x₀, x₂)` and `g(x₂, f(a))` have a most general unifier: the second
argument meets a variable that the first has bound. -/
theorem unify_mostGeneral_chain :
    (Bindings.empty.bind 0 (.app 1 [.var 1])).Built ∧
    ∃ m', (Bindings.empty.bind 0 (.app 1 [.var 1])).unify (.app 2 [.var 0, .var 2])
        (.app 2 [.var 2, .app 1 [.const 3]]) = some m' ∧
      (∀ θ, m'.SolvedBy θ ↔ (Bindings.empty.bind 0 (.app 1 [.var 1])).SolvedBy θ ∧
        (Term.app 2 [.var 0, .var 2]).subst θ = (Term.app 2 [.var 2, .app 1 [.const 3]]).subst θ) ∧
      m'.apply (.app 2 [.var 0, .var 2]) = m'.apply (.app 2 [.var 2, .app 1 [.const 3]]) := by
  have built : (Bindings.empty.bind 0 (.app 1 [.var 1])).Built := .bind .empty (by simp [Admits]; decide)
  have general := built.unify_mostGeneral (.app 2 [.var 0, .var 2]) (.app 2 [.var 2, .app 1 [.const 3]])
  -- `x₁` has to be `a`, and both other variables `f(a)`
  have solution : (Bindings.empty.bind 0 (.app 1 [.var 1])).SolvedBy
      fun x => if x = 1 then .const 3 else .app 1 [.const 3] :=
    (solvedBy_bind rfl _ _).mpr ⟨solvedBy_empty _, by simp⟩
  have some := general.1.mpr ⟨_, solution, by simp⟩
  obtain ⟨m', found⟩ := Option.isSome_iff_exists.mp some
  exact ⟨built, m', found, general.2 m' found⟩

end Bindings

end Refutation
