import Refutation.Proofs.Dereferencing

/-!
Unification by recursion ends. Two applications are unified by unifying their arguments in turn, each pair under what
the pairs before it have bound; a bound variable is unified as its value; an unbound one is bound to the other term,
read through the bindings, unless it occurs there. The calls are bounded in depth here, as reading is: the value of a
bound variable is larger than the variable, and the bindings grow from one argument to the next, so nothing in the
arguments of a call says how deep it will go.

That it ends comes from the work list of `Unification.solve`. Its steps are those of the recursion in the order in which
this makes them, and they lower a rank. So by induction on the steps the recursion solves whatever is on the list, one
equation after the other, and agrees with the work list on the result.
-/

namespace Refutation

namespace Bindings

/-- Solves equations one after the other, each under what those before it have bound. A first `none` says that a call
was cut off, a second one that some equation has no solution. -/
def foldWithin (unify : Bindings → Term → Term → Option (Option Bindings)) :
    Bindings → List Unification.Equation → Option (Option Bindings)
  | m, [] => some (some m)
  | m, (s, t) :: rest =>
      match unify m s t with
      | none => none
      | some none => some none
      | some (some m') => foldWithin unify m' rest

mutual

/-- Unifies two terms by recursion. -/
def unifyWithin : Nat → Bindings → Term → Term → Option (Option Bindings)
  | 0, _, _, _ => none
  | depth + 1, m, .var x, t => unifyVarWithin depth m x t
  | depth + 1, m, s, .var y => unifyVarWithin depth m y s
  | _ + 1, m, .const c, .const d => some (if c = d then some m else none)
  | depth + 1, m, .app f ss, .app g ts =>
      if f = g ∧ ss.length = ts.length then foldWithin (unifyWithin depth) m (ss.zip ts) else some none
  | _ + 1, _, .const _, .app _ _ => some none
  | _ + 1, _, .app _ _, .const _ => some none

/-- Unifies a variable with a term by recursion. -/
def unifyVarWithin : Nat → Bindings → VarId → Term → Option (Option Bindings)
  | 0, _, _, _ => none
  | depth + 1, m, x, t =>
      match m.get? x with
      | some value => unifyWithin depth m value t
      | none => do
          let read ← m.readWithin depth t
          if read = .var x then return some m
          if ← m.occursWithin x depth read then return none
          return some (← m.bindWithin depth x read)

end

variable {m : Bindings} {x : VarId} {t : Term}

theorem unifyVar_bound {value : Term} {result : Option Bindings} (bound : m.get? x = some value)
    (settles : Settles (unifyWithin · m value t) result) : Settles (unifyVarWithin · m x t) result := by
  refine settles.call fun depth => ?_
  rw [unifyVarWithin, bound]

/-- Binding the term as it was read is binding the term. -/
theorem Solved.bind_apply (solved : m.Solved) (unbound : m.get? x = none) (t : Term) :
    m.bind x (m.apply t) = m.bind x t := by
  have value : (m.erase x).apply (m.apply t) = (m.erase x).apply t := by
    rw [apply_erase_of_unbound unbound, apply_erase_of_unbound unbound, solved.apply_apply]
  rw [Bindings.bind, Bindings.bind, value]

theorem Solved.occurs_apply (solved : m.Solved) (x : VarId) (t : Term) : m.occurs x (m.apply t) = m.occurs x t := by
  rw [Bool.eq_iff_iff, occurs_eq_true_iff, occurs_eq_true_iff, solved.apply_apply]

/-- An unbound variable is unified as a step of the work list eliminates it. -/
theorem Solved.unifyVar_unbound (solved : m.Solved) (unbound : m.get? x = none) (t : Term) :
    Settles (unifyVarWithin · m x t)
      (if m.apply t = .var x then some m else if m.occurs x t then none else some (m.bind x t)) := by
  have read := solved.read_settles t
  have sought := solved.occurs_settles x (m.apply t)
  rw [solved.occurs_apply] at sought
  have body : Settles (fun depth => (m.readWithin depth t).bind fun read =>
      if read = .var x then some (some m) else (m.occursWithin x depth read).bind fun seen =>
        if seen then some none else (m.bindWithin depth x read).bind fun m' => some (some m'))
      (if m.apply t = .var x then some m else if m.occurs x t then none else some (m.bind x t)) := by
    refine read.bind ?_
    by_cases itself : m.apply t = .var x
    · simp only [if_pos itself]
      exact .done (some m)
    · simp only [if_neg itself]
      refine sought.bind ?_
      cases seen : m.occurs x t with
      | true => exact .done none
      | false =>
          have absent : x ∉ (m.apply (m.apply t)).vars := by
            rw [← occurs_eq_true_iff, solved.occurs_apply, seen]
            exact Bool.false_ne_true
          have bound := solved.bind_settles (admits_of_unbound unbound absent)
          rw [solved.bind_apply unbound] at bound
          exact bound.bind (.done (some (m.bind x t)))
  refine body.call fun depth => ?_
  rw [unifyVarWithin, unbound]
  rfl

end Bindings

namespace Unification

open Bindings

/-- The equations of a list are solved in turn, each by a recursion that ends, up to the end of the list or to one
without a solution. -/
inductive Unrolls : Bindings → List Equation → Option Bindings → Prop
  | nil {m : Bindings} : Unrolls m [] (some m)
  | clash {m : Bindings} {s t : Term} {rest : List Equation} : Settles (unifyWithin · m s t) none →
      Unrolls m ((s, t) :: rest) none
  | cons {m m' : Bindings} {s t : Term} {rest : List Equation} {result : Option Bindings} :
      Settles (unifyWithin · m s t) (some m') → Unrolls m' rest result → Unrolls m ((s, t) :: rest) result

namespace Unrolls

variable {m : Bindings} {s t s' t' : Term} {front rest : List Equation} {result : Option Bindings}

theorem settles (unrolls : Unrolls m rest result) :
    Settles (fun depth => foldWithin (unifyWithin depth) m rest) result := by
  induction unrolls with
  | nil => exact .done _
  | clash head =>
      obtain ⟨depth, enough⟩ := head
      exact ⟨depth, fun more larger => by simp only [foldWithin, enough more larger]⟩
  | cons head _ ih =>
      obtain ⟨depth, enough⟩ := head
      obtain ⟨depth', enough'⟩ := ih
      refine ⟨max depth depth', fun more larger => ?_⟩
      simp only [foldWithin, enough more (by omega)]
      exact enough' more (by omega)

/-- The first equations of a list are solved before the rest. -/
theorem split (unrolls : Unrolls m (front ++ rest) result) :
    Unrolls m front none ∧ result = none ∨ ∃ m', Unrolls m front (some m') ∧ Unrolls m' rest result := by
  induction front generalizing m with
  | nil => exact .inr ⟨m, .nil, unrolls⟩
  | cons e front ih =>
      cases unrolls with
      | clash head => exact .inl ⟨.clash head, rfl⟩
      | cons head tail =>
          rcases ih tail with ⟨failed, none⟩ | ⟨m', solved, later⟩
          · exact .inl ⟨.cons head failed, none⟩
          · exact .inr ⟨m', .cons head solved, later⟩

/-- An equation may stand in place of another that its recursion leads to. -/
theorem replace (unrolls : Unrolls m ((s, t) :: rest) result)
    (leads : ∀ r, Settles (unifyWithin · m s t) r → Settles (unifyWithin · m s' t') r) :
    Unrolls m ((s', t') :: rest) result := by
  cases unrolls with
  | clash head => exact .clash (leads _ head)
  | cons head tail => exact .cons (leads _ head) tail

end Unrolls

section Steps

variable {m : Bindings} {x : VarId} {s t u : Term} {rest : List Equation} {state : State} {result : Option Bindings}

theorem unrolls_of_eliminate (solved : m.Solved) (done : eliminate m x u rest = some state)
    (leads : ∀ r, Settles (unifyVarWithin · m x u) r → Settles (unifyWithin · m s t) r)
    (later : Unrolls state.bindings state.pending result) : Unrolls m ((s, t) :: rest) result := by
  rcases eliminate_cases done with ⟨value, bound, rfl⟩ | ⟨unbound, itself, rfl⟩ | ⟨unbound, other, absent, rfl⟩
  · exact later.replace fun r settles => leads r (unifyVar_bound bound settles)
  · have settles := leads _ (solved.unifyVar_unbound unbound u)
    rw [if_pos itself] at settles
    exact .cons settles later
  · have settles := leads _ (solved.unifyVar_unbound unbound u)
    rw [← occurs_eq_true_iff] at absent
    rw [if_neg other, if_neg absent] at settles
    exact .cons settles later

theorem unifyVar_of_clash (solved : m.Solved) (clash : eliminate m x u rest = none) :
    Settles (unifyVarWithin · m x u) none := by
  unfold eliminate at clash
  split at clash
  · cases clash
  · next unbound =>
      have settles := solved.unifyVar_unbound unbound u
      split at clash
      · cases clash
      · next other =>
          split at clash
          · next seen => rwa [if_neg other, if_pos seen] at settles
          · cases clash

theorem unify_var_left (settles : Settles (unifyVarWithin · m x t) result) :
    Settles (unifyWithin · m (.var x) t) result := settles.call fun _ => by rw [unifyWithin]

theorem unify_var_right (other : ∀ y, s ≠ .var y) (settles : Settles (unifyVarWithin · m x s) result) :
    Settles (unifyWithin · m s (.var x)) result := by
  refine settles.call fun depth => ?_
  cases s with
  | const c => rw [unifyWithin]; exact nofun
  | var y => exact absurd rfl (other y)
  | app f args => rw [unifyWithin]; exact nofun

/-- What a step leaves to be solved is what the recursion goes on to. -/
theorem unrolls_of_stepOn (solved : m.Solved) (done : stepOn m rest s t = some state)
    (later : Unrolls state.bindings state.pending result) : Unrolls m ((s, t) :: rest) result := by
  rcases stepOn_cases done with ⟨x, rfl, left⟩ | ⟨y, rfl, other, right⟩ | ⟨c, rfl, rfl, rfl⟩ |
    ⟨f, ss, ts, rfl, rfl, lengths, rfl⟩
  · exact unrolls_of_eliminate solved left (fun r => unify_var_left) later
  · exact unrolls_of_eliminate solved right (fun r => unify_var_right other) later
  · refine .cons ((Settles.done (some m)).call fun _ => ?_) later
    rw [unifyWithin, if_pos rfl]
  · -- the arguments are solved first, and what they come to is what the applications come to
    have leads : ∀ r, Unrolls m (ss.zip ts) r → Settles (unifyWithin · m (.app f ss) (.app f ts)) r := by
      intro r args
      refine args.settles.call fun depth => ?_
      rw [unifyWithin, if_pos ⟨rfl, lengths⟩]
    rcases later.split with ⟨failed, rfl⟩ | ⟨m', args, rest⟩
    · exact .clash (leads none failed)
    · exact .cons (leads (some m') args) rest

theorem unify_of_clash (solved : m.Solved) (clash : stepOn m rest s t = none) :
    Settles (unifyWithin · m s t) none := by
  unfold stepOn at clash
  split at clash
  · exact unify_var_left (unifyVar_of_clash solved clash)
  · next other => exact unify_var_right other (unifyVar_of_clash solved clash)
  · split at clash
    · cases clash
    · next differ =>
        refine (Settles.done none).call fun _ => ?_
        rw [unifyWithin, if_neg differ]
  · split at clash
    · cases clash
    · next differ =>
        refine (Settles.done none).call fun _ => ?_
        rw [unifyWithin, if_neg differ]
  · exact (Settles.done none).call fun _ => by rw [unifyWithin]
  · exact (Settles.done none).call fun _ => by rw [unifyWithin]

/-- The recursion solves whatever is on the work list, with the result of the work list. -/
theorem solve_unrolls (m : Bindings) (solved : m.Solved) (pending : List Equation) :
    Unrolls m pending (solve m solved pending) := by
  fun_induction solve m solved pending with
  | case1 m solved => exact .nil
  | case2 m solved s t rest clash => exact .clash (unify_of_clash solved clash)
  | case3 m solved s t rest state next ih => exact unrolls_of_stepOn solved next ih

end Steps

end Unification

namespace Bindings

theorem Solved.unify_settles {m : Bindings} (solved : m.Solved) (s t : Term) :
    Settles (unifyWithin · m s t) (m.unify s t) := by
  have unrolls := Unification.solve_unrolls m solved [(s, t)]
  rw [← solved.unify_eq] at unrolls
  generalize m.unify s t = result at unrolls ⊢
  cases unrolls with
  | clash head => exact head
  | cons head tail =>
      cases tail
      exact head

example : ((Bindings.empty.bind 0 (.app 1 [.var 1])).unifyWithin 9 (.app 2 [.var 0, .var 2])
    (.app 2 [.var 2, .app 1 [.const 3]])).map (Option.map Bindings.entries) =
      some (some [(1, .const 3), (2, .app 1 [.const 3]), (0, .app 1 [.const 3])]) := by decide

/-- Under bindings that come about by admitted calls the recursion that unifies two terms ends, through all its
readings, searches and bindings: from some depth on it is not cut off, and says whether the terms unify and how. -/
theorem Built.unify_ends {m : Bindings} (built : m.Built) (s t : Term) :
    ∃ depth, ∀ more, depth ≤ more → m.unifyWithin more s t = some (m.unify s t) :=
  built.solved.unify_settles s t

/-- With `x₀` bound to `f(x₁)`, `g(x₀, x₂)` and `g(x₂, f(a))` are unified: the second argument meets a variable that
the first has bound, to a term that mentions one still to be bound. -/
theorem unify_ends_chain :
    (Bindings.empty.bind 0 (.app 1 [.var 1])).Built ∧
    ∃ depth, ∀ more, depth ≤ more →
      (Bindings.empty.bind 0 (.app 1 [.var 1])).unifyWithin more (.app 2 [.var 0, .var 2])
        (.app 2 [.var 2, .app 1 [.const 3]]) =
      some ((Bindings.empty.bind 0 (.app 1 [.var 1])).unify (.app 2 [.var 0, .var 2])
        (.app 2 [.var 2, .app 1 [.const 3]])) := by
  have built : (Bindings.empty.bind 0 (.app 1 [.var 1])).Built := .bind .empty (by decide)
  exact ⟨built, built.unify_ends _ _⟩

end Bindings

end Refutation
