import Refutation.Term.Basic

/-!
Variable bindings in solved form: a finite map from variables to terms in which no value mentions a
bound variable. One look per variable therefore reads a term completely.

Main statements: `apply_bind` says that a new binding composes with the ones already there, and
`Solved.bind` that it keeps the solved form.
-/

namespace Refutation

structure Bindings where
  entries : List (VarId × Term)

/-- The substitution that moves one variable only. -/
def Term.single (x : VarId) (t : Term) (y : VarId) : Term := if y = x then t else .var y

namespace Bindings

def empty : Bindings := ⟨[]⟩

def get? (m : Bindings) (x : VarId) : Option Term := m.entries.lookup x

def isBound (m : Bindings) (x : VarId) : Bool := (m.get? x).isSome

def size (m : Bindings) : Nat := m.entries.length

def isEmpty (m : Bindings) : Bool := m.entries.isEmpty

/-- The substitution that the bindings stand for: an unbound variable is its own image. -/
def image (m : Bindings) (x : VarId) : Term := (m.get? x).getD (.var x)

/-- Reads a term through the bindings. -/
def apply (m : Bindings) (t : Term) : Term := t.subst m.image

mutual

/-- Whether a variable occurs in a term read through the bindings, without building that term. -/
def occurs (m : Bindings) (x : VarId) : Term → Bool
  | .const _ => false
  | .var y =>
      match m.get? y with
      | some value => decide (x ∈ value.vars)
      | none => x == y
  | .app _ args => occursAny m x args

def occursAny (m : Bindings) (x : VarId) : List Term → Bool
  | [] => false
  | t :: ts => occurs m x t || occursAny m x ts

end

def erase (m : Bindings) (x : VarId) : Bindings := ⟨m.entries.filter fun e => e.1 != x⟩

/--
Binds a variable, in place of any binding it had. The term is read through the other bindings, and
they are read through the new one; this is solved again as long as the variable does not occur in
the term so read.
-/
def bind (m : Bindings) (x : VarId) (t : Term) : Bindings :=
  let others := m.erase x
  let value := others.apply t
  ⟨(x, value) :: others.entries.map fun e => (e.1, e.2.subst (Term.single x value))⟩

/-- No value mentions a bound variable. -/
def Solved (m : Bindings) : Prop := ∀ e ∈ m.entries, ∀ y ∈ e.2.vars, (m.get? y).isNone

instance (m : Bindings) : Decidable m.Solved :=
  inferInstanceAs (Decidable (∀ e ∈ m.entries, ∀ y ∈ e.2.vars, (m.get? y).isNone))

/-- What a call of `bind` has to respect: the variable does not occur in the term read through the
other bindings. -/
def Admits (m : Bindings) (x : VarId) (t : Term) : Prop := x ∉ t.vars ∧ x ∉ ((m.erase x).apply t).vars

instance (m : Bindings) (x : VarId) (t : Term) : Decidable (m.Admits x t) :=
  inferInstanceAs (Decidable (x ∉ t.vars ∧ x ∉ ((m.erase x).apply t).vars))

/-- The bindings that come from the empty ones by admitted calls of `bind`. -/
inductive Built : Bindings → Prop
  | empty : Built .empty
  | bind {m : Bindings} {x : VarId} {t : Term} : Built m → m.Admits x t → Built (m.bind x t)

@[simp] theorem get?_empty (x : VarId) : Bindings.empty.get? x = none := rfl

theorem solved_empty : Bindings.empty.Solved := by
  intro e member
  exact absurd member List.not_mem_nil

@[simp] theorem apply_var (m : Bindings) (x : VarId) : m.apply (.var x) = m.image x := by
  simp [apply]

@[simp] theorem apply_const (m : Bindings) (c : SymbolId) : m.apply (.const c) = .const c := by
  simp [apply]

@[simp] theorem apply_app (m : Bindings) (f : SymbolId) (args : List Term) :
    m.apply (.app f args) = .app f (args.map m.apply) := by
  simp [apply]

theorem image_of_unbound {m : Bindings} {x : VarId} (unbound : m.get? x = none) :
    m.image x = .var x := by
  simp [image, unbound]

theorem image_of_bound {m : Bindings} {x : VarId} {t : Term} (bound : m.get? x = some t) :
    m.image x = t := by
  simp [image, bound]

theorem mem_entries_of_get? {m : Bindings} {x : VarId} {t : Term} (bound : m.get? x = some t) :
    (x, t) ∈ m.entries := by
  obtain ⟨before, after, split, -⟩ := List.lookup_eq_some_iff.mp bound
  rw [split]
  simp

theorem Solved.unbound {m : Bindings} (solved : m.Solved) {x y : VarId} {t : Term}
    (bound : m.get? x = some t) (occurs : y ∈ t.vars) : m.get? y = none := by
  have free := solved (x, t) (mem_entries_of_get? bound) y occurs
  simpa using free

theorem Solved.unbound_of_mem_image {m : Bindings} (solved : m.Solved) {x y : VarId}
    (occurs : y ∈ (m.image x).vars) : m.get? y = none := by
  cases found : m.get? x with
  | none =>
      rw [image_of_unbound found, Term.vars_var, List.mem_singleton] at occurs
      rw [occurs, found]
  | some t =>
      rw [image_of_bound found] at occurs
      exact solved.unbound found occurs

/-- A term read through solved bindings mentions unbound variables only. -/
theorem Solved.unbound_of_mem_apply {m : Bindings} (solved : m.Solved) {t : Term} {y : VarId}
    (occurs : y ∈ (m.apply t).vars) : m.get? y = none := by
  obtain ⟨x, -, inImage⟩ := (Term.mem_vars_subst t).mp occurs
  exact solved.unbound_of_mem_image inImage

/-- Reading a term a second time through solved bindings changes nothing. -/
theorem Solved.apply_apply {m : Bindings} (solved : m.Solved) (t : Term) :
    m.apply (m.apply t) = m.apply t := by
  apply Term.subst_eq_self
  intro x occurs
  exact image_of_unbound (solved.unbound_of_mem_apply occurs)

theorem Solved.apply_image {m : Bindings} (solved : m.Solved) {x : VarId} {t : Term}
    (bound : m.get? x = some t) : m.apply t = t := by
  apply Term.subst_eq_self
  intro y occurs
  exact image_of_unbound (solved.unbound bound occurs)

private theorem lookup_cons_ite (x y : VarId) (t : Term) (entries : List (VarId × Term)) :
    ((x, t) :: entries).lookup y = if y = x then some t else entries.lookup y := by
  by_cases hit : y = x
  · simp [hit]
  · have miss : (y == x) = false := by simpa using hit
    rw [List.lookup_cons, miss, if_neg hit]

private theorem lookup_filter_ne (x y : VarId) (entries : List (VarId × Term)) :
    (entries.filter fun e => e.1 != x).lookup y = if y = x then none else entries.lookup y := by
  induction entries with
  | nil => simp
  | cons e rest ih =>
      obtain ⟨z, t⟩ := e
      rw [lookup_cons_ite]
      by_cases same : z = x
      · subst same
        rw [List.filter_cons_of_neg (by simp), ih]
        split <;> rfl
      · rw [List.filter_cons_of_pos (by simpa using same), lookup_cons_ite, ih]
        by_cases hit : y = z
        · simp [hit, same]
        · simp [hit]

private theorem lookup_map_value (f : Term → Term) (y : VarId) (entries : List (VarId × Term)) :
    (entries.map fun e => (e.1, f e.2)).lookup y = (entries.lookup y).map f := by
  induction entries with
  | nil => rfl
  | cons e rest ih =>
      obtain ⟨z, t⟩ := e
      rw [List.map_cons, lookup_cons_ite, lookup_cons_ite, ih]
      split <;> rfl

theorem get?_erase (m : Bindings) (x y : VarId) :
    (m.erase x).get? y = if y = x then none else m.get? y :=
  lookup_filter_ne x y m.entries

theorem get?_erase_of_unbound {m : Bindings} {x : VarId} (unbound : m.get? x = none) (y : VarId) :
    (m.erase x).get? y = m.get? y := by
  rw [get?_erase]
  split
  · next same => rw [same, unbound]
  · rfl

theorem apply_erase_of_unbound {m : Bindings} {x : VarId} (unbound : m.get? x = none) (t : Term) :
    (m.erase x).apply t = m.apply t := by
  apply Term.subst_congr
  intro y _
  rw [image, image, get?_erase_of_unbound unbound]

theorem get?_bind (m : Bindings) (x y : VarId) (t : Term) :
    (m.bind x t).get? y = if y = x then some ((m.erase x).apply t) else
      (m.get? y).map (Term.subst (Term.single x ((m.erase x).apply t))) := by
  rw [get?, bind, lookup_cons_ite, lookup_map_value]
  by_cases same : y = x
  · rw [if_pos same, if_pos same]
  · rw [if_neg same, if_neg same]
    change ((m.erase x).get? y).map _ = _
    rw [get?_erase, if_neg same]

/-- A new binding of an unbound variable composes with the bindings already there. -/
theorem image_bind {m : Bindings} {x : VarId} (unbound : m.get? x = none) (t : Term) (y : VarId) :
    (m.bind x t).image y = (m.image y).subst (Term.single x (m.apply t)) := by
  rw [image, get?_bind, apply_erase_of_unbound unbound]
  by_cases same : y = x
  · subst same
    simp [image_of_unbound unbound, Term.single]
  · rw [if_neg same]
    cases found : m.get? y with
    | none => simp [image_of_unbound found, Term.single, same]
    | some value => simp [image_of_bound found]

theorem apply_bind {m : Bindings} {x : VarId} (unbound : m.get? x = none) (t u : Term) :
    (m.bind x t).apply u = (m.apply u).subst (Term.single x (m.apply t)) := by
  change u.subst _ = (u.subst m.image).subst _
  rw [Term.subst_subst]
  apply Term.subst_congr
  intro y _
  exact image_bind unbound t y

theorem mem_vars_single {x y : VarId} {t u : Term} (occurs : y ∈ (u.subst (Term.single x t)).vars) :
    y ∈ t.vars ∨ (y ∈ u.vars ∧ y ≠ x) := by
  obtain ⟨z, inTerm, inImage⟩ := (Term.mem_vars_subst u).mp occurs
  rw [Term.single] at inImage
  split at inImage
  · exact .inl inImage
  · next other =>
      rw [Term.vars_var, List.mem_singleton] at inImage
      exact .inr ⟨inImage ▸ inTerm, inImage ▸ other⟩

theorem get?_bind_eq_none {m : Bindings} {x y : VarId} {t : Term} (other : y ≠ x)
    (unbound : m.get? y = none) : (m.bind x t).get? y = none := by
  rw [get?_bind, if_neg other, unbound]
  rfl

/-- Binding an unbound variable to a term in which it does not occur keeps the solved form. -/
theorem Solved.bind {m : Bindings} (solved : m.Solved) {x : VarId} {t : Term}
    (unbound : m.get? x = none) (absent : x ∉ (m.apply t).vars) : (m.bind x t).Solved := by
  have value : (m.erase x).apply t = m.apply t := apply_erase_of_unbound unbound t
  have free : ∀ y ∈ (m.apply t).vars, (m.bind x t).get? y = none := by
    intro y occurs
    refine get?_bind_eq_none ?_ (solved.unbound_of_mem_apply occurs)
    intro same
    exact absent (same ▸ occurs)
  intro e member y occurs
  rw [Option.isNone_iff_eq_none]
  rw [Bindings.bind, List.mem_cons] at member
  rcases member with rfl | later
  · rw [value] at occurs
    exact free y occurs
  · obtain ⟨e', inErased, rfl⟩ := List.mem_map.mp later
    rw [value] at occurs
    have inEntries : e' ∈ m.entries := (List.mem_filter.mp inErased).1
    rcases mem_vars_single occurs with inValue | ⟨inOld, other⟩
    · exact free y inValue
    · have unboundOld := solved e' inEntries y inOld
      exact get?_bind_eq_none other (by simpa using unboundOld)

/-- A binding that is to be replaced has no influence on the new one. -/
theorem bind_erase (m : Bindings) (x : VarId) (t : Term) : (m.erase x).bind x t = m.bind x t := by
  have twice : (m.erase x).erase x = m.erase x := by
    simp [erase, List.filter_filter]
  rw [Bindings.bind, Bindings.bind, twice]

theorem Solved.erase {m : Bindings} (solved : m.Solved) (x : VarId) : (m.erase x).Solved := by
  intro e member y occurs
  have unbound := solved e (List.mem_filter.mp member).1 y occurs
  rw [Option.isNone_iff_eq_none] at unbound ⊢
  rw [get?_erase, unbound]
  split <;> rfl

/-- Admitted calls of `bind` keep the solved form. -/
theorem Built.solved {m : Bindings} (built : m.Built) : m.Solved := by
  induction built with
  | empty => exact solved_empty
  | @bind m x t _ admits ih =>
      rw [← bind_erase]
      have unbound : (m.erase x).get? x = none := by rw [get?_erase, if_pos rfl]
      exact (ih.erase x).bind unbound admits.2

theorem occursAny_eq_any (m : Bindings) (x : VarId) (ts : List Term) :
    m.occursAny x ts = ts.any (m.occurs x) := by
  induction ts with
  | nil => rfl
  | cons t ts ih => rw [occursAny, ih, List.any_cons]

/-- The occurs check sees exactly the variables of the term read through the bindings. -/
theorem occurs_eq_true_iff (m : Bindings) (x : VarId) (t : Term) :
    m.occurs x t = true ↔ x ∈ (m.apply t).vars := by
  induction t using Term.induct with
  | const c => simp [occurs]
  | var y =>
      rw [occurs, apply_var]
      cases found : m.get? y with
      | none => simp [image_of_unbound found]
      | some value => simp [image_of_bound found]
  | app f args ih =>
      rw [occurs, occursAny_eq_any, List.any_eq_true]
      simp only [apply_app, Term.vars_app, List.mem_flatMap, List.mem_map]
      constructor
      · rintro ⟨t, member, seen⟩
        exact ⟨_, ⟨t, member, rfl⟩, (ih t member).mp seen⟩
      · rintro ⟨_, ⟨t, member, rfl⟩, seen⟩
        exact ⟨t, member, (ih t member).mpr seen⟩

end Bindings

end Refutation
