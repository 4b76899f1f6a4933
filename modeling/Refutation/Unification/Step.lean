import Refutation.Bindings.Basic

/-!
Unification, one step at a time. A state holds the bindings found so far and the equations that are
still to be solved; a step works on the first equation. A variable on the left is looked at before
one on the right, and the equations between the arguments of two applications are solved from left to
right before anything else.
-/

namespace Refutation.Unification

abbrev Equation := Term × Term

structure State where
  bindings : Bindings
  pending : List Equation

/--
Solves one equation between a variable and a term: a bound variable gives way to its value, and an
unbound one is bound unless the term is that variable already. There is no state to go on with if
the variable occurs inside the term.
-/
def eliminate (m : Bindings) (x : VarId) (t : Term) (rest : List Equation) : Option State :=
  match m.get? x with
  | some value => some ⟨m, (value, t) :: rest⟩
  | none =>
      if m.apply t = .var x then some ⟨m, rest⟩
      else if m.occurs x t then none
      else some ⟨m.bind x t, rest⟩

/-- Works on the equation between two terms; `none` says that it has no solution. -/
def stepOn (m : Bindings) (rest : List Equation) : Term → Term → Option State
  | .var x, t => eliminate m x t rest
  | s, .var y => eliminate m y s rest
  | .const c, .const d => if c = d then some ⟨m, rest⟩ else none
  | .app f ss, .app g ts =>
      if f = g ∧ ss.length = ts.length then some ⟨m, ss.zip ts ++ rest⟩ else none
  | .const _, .app _ _ => none
  | .app _ _, .const _ => none

section Steps

variable {m : Bindings} {x : VarId} {s t : Term} {rest : List Equation} {state : State}

/-- What becomes of an equation between a variable and a term: the variable is looked up, is the term already, or is
bound. -/
theorem eliminate_cases (done : eliminate m x t rest = some state) :
    (∃ value, m.get? x = some value ∧ state = ⟨m, (value, t) :: rest⟩) ∨
    (m.get? x = none ∧ m.apply t = .var x ∧ state = ⟨m, rest⟩) ∨
    (m.get? x = none ∧ m.apply t ≠ .var x ∧ x ∉ (m.apply t).vars ∧ state = ⟨m.bind x t, rest⟩) := by
  unfold eliminate at done
  split at done
  · next value bound =>
      cases done
      exact .inl ⟨value, bound, rfl⟩
  · next unbound =>
      split at done
      · next itself =>
          cases done
          exact .inr (.inl ⟨unbound, itself, rfl⟩)
      · next other =>
          split at done
          · cases done
          · next seen =>
              cases done
              rw [Bindings.occurs_eq_true_iff] at seen
              exact .inr (.inr ⟨unbound, other, seen, rfl⟩)

/-- What becomes of an equation: a variable on the left is eliminated, or else one on the right, equal constants are
dropped, and two applications of one function to as many terms are split. -/
theorem stepOn_cases (done : stepOn m rest s t = some state) :
    (∃ x, s = .var x ∧ eliminate m x t rest = some state) ∨
    (∃ y, t = .var y ∧ (∀ x, s ≠ .var x) ∧ eliminate m y s rest = some state) ∨
    (∃ c, s = .const c ∧ t = .const c ∧ state = ⟨m, rest⟩) ∨
    (∃ f ss ts, s = .app f ss ∧ t = .app f ts ∧ ss.length = ts.length ∧ state = ⟨m, ss.zip ts ++ rest⟩) := by
  unfold stepOn at done
  split at done
  · next x => exact .inl ⟨x, rfl, done⟩
  · next s y other => exact .inr (.inl ⟨y, rfl, other, done⟩)
  · next c d =>
      split at done
      · next same =>
          cases done
          exact .inr (.inr (.inl ⟨c, rfl, by rw [same], rfl⟩))
      · cases done
  · next f ss g ts =>
      split at done
      · next alike =>
          cases done
          exact .inr (.inr (.inr ⟨f, ss, ts, rfl, by rw [alike.1], alike.2, rfl⟩))
      · cases done
  · cases done
  · cases done

end Steps

end Refutation.Unification
