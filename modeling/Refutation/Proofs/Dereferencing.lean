import Mathlib.Data.List.Forall2
import Refutation.Proofs.Unifier

/-!
Terms read through bindings by recursion: a bound variable is followed to its value, the value is read in turn, and
so on. Binding a variable by recursion enters the term as it is and then reads every value, the new one too, through
the bindings so far. On some bindings such a recursion has no end, so it has a bound here on the depth of its calls,
and no result if that is passed.

On solved bindings the recursion ends, and gives what one look per variable gives. Looking for a variable goes along the
same chains, so it finds exactly the variables of what is read. While a variable is being bound the
bindings are not solved: the value of an older binding may mention the new variable, and the new term may mention older
ones. The chains end all the same if the call was admitted, and reading all values along them is what solves the
bindings again. A call that is not admitted has no end.
-/

namespace Refutation

/-- Whether a computation with a bound on its depth has the result as soon as the bound is large enough. -/
def Settles {α : Type} (bounded : Nat → Option α) (result : α) : Prop :=
  ∃ depth, ∀ more, depth ≤ more → bounded more = some result

namespace Settles

variable {α β : Type}

theorem done (a : α) : Settles (fun _ => some a) a := ⟨0, fun _ _ => rfl⟩

/-- A call is one deeper than what it leads to. -/
theorem call {inner outer : Nat → Option α} {a : α} (settles : Settles inner a)
    (leads : ∀ depth, outer (depth + 1) = inner depth) : Settles outer a := by
  obtain ⟨depth, enough⟩ := settles
  refine ⟨depth + 1, fun more larger => ?_⟩
  obtain ⟨less, rfl⟩ : ∃ less, more = less + 1 := ⟨more - 1, by omega⟩
  rw [leads]
  exact enough less (by omega)

theorem bind {first : Nat → Option α} {next : Nat → α → Option β} {a : α} {b : β} (settles : Settles first a)
    (settlesNext : Settles (next · a) b) : Settles (fun depth => (first depth).bind (next depth)) b := by
  obtain ⟨depth, enough⟩ := settles
  obtain ⟨depth', enough'⟩ := settlesNext
  refine ⟨max depth depth', fun more larger => ?_⟩
  show (first more).bind (next more) = some b
  rw [enough more (by omega), Option.bind_some]
  exact enough' more (by omega)

theorem map {bounded : Nat → Option α} {a : α} (settles : Settles bounded a) (f : α → β) :
    Settles (fun depth => (bounded depth).map f) (f a) := by
  obtain ⟨depth, enough⟩ := settles
  exact ⟨depth, fun more larger => congrArg (Option.map f) (enough more larger)⟩

theorem mapM {bounded : Nat → α → Option β} {as : List α} {bs : List β}
    (each : List.Forall₂ (fun a b => Settles (bounded · a) b) as bs) :
    Settles (fun depth => as.mapM (bounded depth)) bs := by
  induction each with
  | nil => exact done []
  | @cons a b as bs head _ ih =>
      simp only [List.mapM_cons]
      exact head.bind (ih.bind (done (b :: bs)))

end Settles

theorem mapM_eq_none_of_mem {α β : Type} {f : α → Option β} {as : List α} {a : α} (member : a ∈ as)
    (failed : f a = none) : as.mapM f = none := by
  induction as with
  | nil => exact absurd member List.not_mem_nil
  | cons b as ih =>
      rcases List.mem_cons.mp member with rfl | later
      · simp [failed]
      · simp [ih later]

section Lists

variable {α β : Type} {f : α → Option β} {test : α → Option Bool} {p : β → Bool} {as : List α}

/-- If a test answers for the result of a computation, it does so on a list. -/
theorem anyM_of_mapM (each : ∀ a ∈ as, ∀ b, f a = some b → test a = some (p b)) {bs : List β}
    (mapped : as.mapM f = some bs) : as.anyM test = some (bs.any p) := by
  induction as generalizing bs with
  | nil =>
      cases mapped
      rfl
  | cons a as ih =>
      simp only [List.mapM_cons, Option.bind_eq_bind, Option.bind_eq_some_iff] at mapped
      obtain ⟨b, first, bs, rest, made⟩ := mapped
      cases made
      have answer := each a List.mem_cons_self b first
      have later := ih (fun c member => each c (List.mem_cons_of_mem a member)) rest
      simp only [List.anyM, answer, List.any_cons]
      cases p b with
      | true => rfl
      | false => exact later

/-- If a test fails only behind a computation, it does so on a list; it may hold before all of the list is computed. -/
theorem exists_mapM_of_anyM (each : ∀ a ∈ as, test a = some false → ∃ b, f a = some b ∧ p b = false)
    (failed : as.anyM test = some false) : ∃ bs, as.mapM f = some bs ∧ bs.any p = false := by
  induction as with
  | nil => exact ⟨[], rfl, rfl⟩
  | cons a as ih =>
      simp only [List.anyM, Option.bind_eq_bind, Option.bind_eq_some_iff] at failed
      obtain ⟨answer, first, rest⟩ := failed
      cases answer with
      | true => cases rest
      | false =>
          obtain ⟨b, made, missed⟩ := each a List.mem_cons_self first
          obtain ⟨bs, others, missedAll⟩ := ih (fun c member => each c (List.mem_cons_of_mem a member)) rest
          exact ⟨b :: bs, by simp [made, others], by simp [missed, missedAll]⟩

end Lists

namespace Bindings

/-- Reads a term by recursion: a bound variable is read as its value. -/
def readWithin (m : Bindings) : Nat → Term → Option Term
  | 0, _ => none
  | _ + 1, .const c => some (.const c)
  | depth + 1, .var x =>
      match m.get? x with
      | some value => m.readWithin depth value
      | none => some (.var x)
  | depth + 1, .app f args => (args.mapM (m.readWithin depth)).map (.app f)

/-- Looks for a variable in a term by recursion: in place of a bound variable in its value. -/
def occursWithin (m : Bindings) (x : VarId) : Nat → Term → Option Bool
  | 0, _ => none
  | _ + 1, .const _ => some false
  | depth + 1, .var y =>
      match m.get? y with
      | some value => m.occursWithin x depth value
      | none => some (x == y)
  | depth + 1, .app _ args => args.anyM (m.occursWithin x depth)

/-- Enters a term for a variable as it is, in place of any binding the variable had. -/
def enter (m : Bindings) (x : VarId) (t : Term) : Bindings := ⟨(x, t) :: (m.erase x).entries⟩

/-- Binds a variable by recursion: enters the term and reads every value through what there is then. -/
def bindWithin (m : Bindings) (depth : Nat) (x : VarId) (t : Term) : Option Bindings :=
  ((m.enter x t).entries.mapM fun e => ((m.enter x t).readWithin depth e.2).map fun value => (e.1, value)).map
    Bindings.mk

section Reading

variable {m : Bindings} {x : VarId}

theorem read_unbound (unbound : m.get? x = none) : Settles (m.readWithin · (.var x)) (.var x) := by
  refine (Settles.done (Term.var x)).call fun depth => ?_
  rw [readWithin, unbound]

theorem read_bound {value u : Term} (bound : m.get? x = some value) (read : Settles (m.readWithin · value) u) :
    Settles (m.readWithin · (.var x)) u := by
  refine read.call fun depth => ?_
  rw [readWithin, bound]

/-- A term is read as soon as its variables are. -/
theorem read_of_vars {θ : VarId → Term} (t : Term)
    (each : ∀ y ∈ t.vars, Settles (m.readWithin · (.var y)) (θ y)) : Settles (m.readWithin · t) (t.subst θ) := by
  induction t using Term.induct with
  | const c =>
      rw [Term.subst_const]
      exact (Settles.done (Term.const c)).call fun _ => rfl
  | var y =>
      rw [Term.subst_var]
      exact each y (by simp)
  | app f args ih =>
      rw [Term.subst_app]
      have parts : List.Forall₂ (fun t u => Settles (m.readWithin · t) u) args (args.map (Term.subst θ)) := by
        rw [List.forall₂_map_right_iff, List.forall₂_same]
        intro t member
        refine ih t member fun y occurs => each y ?_
        rw [Term.vars_app, List.mem_flatMap]
        exact ⟨t, member, occurs⟩
      exact ((Settles.mapM parts).map (Term.app f)).call fun _ => rfl

theorem read_of_unbound (t : Term) (free : ∀ y ∈ t.vars, m.get? y = none) : Settles (m.readWithin · t) t := by
  have read := read_of_vars (θ := .var) t fun y occurs => read_unbound (free y occurs)
  rwa [t.subst_eq_self fun _ _ => rfl] at read

/-- On solved bindings the recursion ends with what one look per variable gives. -/
theorem Solved.read_settles (solved : m.Solved) (t : Term) : Settles (m.readWithin · t) (m.apply t) := by
  refine read_of_vars t fun y _ => ?_
  cases found : m.get? y with
  | none =>
      rw [image_of_unbound found]
      exact read_unbound found
  | some value =>
      rw [image_of_bound found]
      exact read_bound found (read_of_unbound value fun z occurs => solved.unbound found occurs)

/-- Where variables lead to each other without an end, no term that mentions one of them is ever read. -/
theorem readWithin_of_trap (trap : Set VarId)
    (leads : ∀ x ∈ trap, ∃ value, m.get? x = some value ∧ ∃ y ∈ value.vars, y ∈ trap) (depth : Nat) {t : Term}
    (meets : ∃ x ∈ t.vars, x ∈ trap) : m.readWithin depth t = none := by
  induction depth generalizing t with
  | zero => rw [readWithin]
  | succ depth ih =>
      obtain ⟨x, occurs, inside⟩ := meets
      cases t with
      | const c => simp at occurs
      | var y =>
          rw [Term.vars_var, List.mem_singleton] at occurs
          obtain ⟨value, bound, further⟩ := leads x inside
          rw [← occurs, readWithin, bound]
          exact ih further
      | app f args =>
          rw [Term.vars_app, List.mem_flatMap] at occurs
          obtain ⟨t, member, within⟩ := occurs
          rw [readWithin, mapM_eq_none_of_mem member (ih ⟨x, within, inside⟩), Option.map_none]

end Reading

section Occurrence

variable {m : Bindings} {x : VarId} {depth : Nat}

theorem decide_mem_vars_app (x : VarId) (f : SymbolId) (args : List Term) :
    decide (x ∈ (Term.app f args).vars) = args.any fun t => decide (x ∈ t.vars) := by
  rw [Bool.eq_iff_iff, decide_eq_true_iff, List.any_eq_true, Term.vars_app, List.mem_flatMap]
  simp only [decide_eq_true_iff]

/-- Where reading a term ends, looking for a variable ends at the same depth, and finds it if what was read mentions
it. Both follow the same chains, so the induction is on the depth and not on the term. -/
theorem occursWithin_of_readWithin {t u : Term} (read : m.readWithin depth t = some u) :
    m.occursWithin x depth t = some (decide (x ∈ u.vars)) := by
  induction depth generalizing t u with
  | zero => simp [readWithin] at read
  | succ depth ih =>
      cases t with
      | const c =>
          cases read
          simp [occursWithin]
      | var y =>
          rw [readWithin] at read
          rw [occursWithin]
          cases found : m.get? y with
          | none =>
              rw [found] at read
              cases read
              have same : decide (x ∈ (Term.var y).vars) = (x == y) := by
                rw [Term.vars_var, Bool.eq_iff_iff]
                simp
              rw [same]
          | some value =>
              rw [found] at read
              exact ih read
      | app f args =>
          obtain ⟨us, parts, rfl⟩ := Option.map_eq_some_iff.mp read
          rw [occursWithin, decide_mem_vars_app]
          exact anyM_of_mapM (fun s _ u partRead => ih partRead) parts

/-- A variable is missed only by reading all of the term; it may be found before. -/
theorem occursWithin_eq_false_iff {t : Term} : m.occursWithin x depth t = some false ↔
    ∃ u, m.readWithin depth t = some u ∧ x ∉ u.vars := by
  constructor
  · intro absent
    induction depth generalizing t with
    | zero => simp [occursWithin] at absent
    | succ depth ih =>
        cases t with
        | const c => exact ⟨.const c, rfl, by simp⟩
        | var y =>
            rw [occursWithin] at absent
            rw [readWithin]
            cases found : m.get? y with
            | none =>
                rw [found] at absent
                exact ⟨.var y, rfl, by simpa using absent⟩
            | some value =>
                rw [found] at absent
                exact ih absent
        | app f args =>
            have each : ∀ s ∈ args, m.occursWithin x depth s = some false →
                ∃ u, m.readWithin depth s = some u ∧ decide (x ∈ u.vars) = false := by
              intro s _ missed
              obtain ⟨u, read, outside⟩ := ih missed
              exact ⟨u, read, decide_eq_false outside⟩
            obtain ⟨us, parts, missed⟩ := exists_mapM_of_anyM each absent
            rw [← decide_mem_vars_app x f] at missed
            exact ⟨.app f us, by rw [readWithin, parts, Option.map_some], of_decide_eq_false missed⟩
  · rintro ⟨u, read, outside⟩
    rw [occursWithin_of_readWithin read, decide_eq_false outside]

/-- On solved bindings the search for a variable ends, and finds it where one look per variable does. -/
theorem Solved.occurs_settles (solved : m.Solved) (x : VarId) (t : Term) :
    Settles (m.occursWithin x · t) (m.occurs x t) := by
  have answer : m.occurs x t = decide (x ∈ (m.apply t).vars) := by
    rw [Bool.eq_iff_iff, occurs_eq_true_iff, decide_eq_true_iff]
  obtain ⟨depth, enough⟩ := solved.read_settles t
  rw [answer]
  exact ⟨depth, fun more larger => occursWithin_of_readWithin (enough more larger)⟩

/-- On bindings that come about by admitted calls, reading a term and looking for a variable in it both end, and the
variable is found exactly if what is read mentions it. At every depth the search says that it is absent exactly if the
reading has ended without it. -/
theorem Built.occurs_sees_reading (built : m.Built) (t : Term) (x : VarId) :
    Settles (m.readWithin · t) (m.apply t) ∧ Settles (m.occursWithin x · t) (m.occurs x t) ∧
      (m.occurs x t = true ↔ x ∈ (m.apply t).vars) ∧
      ∀ depth, m.occursWithin x depth t = some false ↔ ∃ u, m.readWithin depth t = some u ∧ x ∉ u.vars :=
  ⟨built.solved.read_settles t, built.solved.occurs_settles x t, m.occurs_eq_true_iff x t,
    fun _ => occursWithin_eq_false_iff⟩

/-- With `x₀` bound to `g(x₁)` and `x₃` to `g(x₀)`, the term `f(x₃, x₀)` is read as `f(g(g(x₁)), g(x₁))`: the search
finds `x₁`, which the term does not mention, and misses `x₀`, which it does. -/
theorem occurs_sees_reading_chain :
    let m := (Bindings.empty.bind 0 (.app 7 [.var 1])).bind 3 (.app 7 [.var 0])
    let t := Term.app 8 [.var 3, .var 0]
    m.Built ∧ Settles (m.readWithin · t) (.app 8 [.app 7 [.app 7 [.var 1]], .app 7 [.var 1]]) ∧
      Settles (m.occursWithin 1 · t) true ∧ 1 ∈ (m.apply t).vars ∧
      Settles (m.occursWithin 0 · t) false ∧ 0 ∉ (m.apply t).vars := by
  intro m t
  have built : m.Built := .bind (.bind .empty (by decide)) (by decide)
  obtain ⟨reads, finds, found, -⟩ := built.occurs_sees_reading t 1
  obtain ⟨-, misses, missed, -⟩ := built.occurs_sees_reading t 0
  have value : m.apply t = .app 8 [.app 7 [.app 7 [.var 1]], .app 7 [.var 1]] := by decide
  have hit : m.occurs 1 t = true := by decide
  have miss : m.occurs 0 t = false := by decide
  rw [value] at reads
  rw [hit] at finds
  rw [miss] at misses missed
  exact ⟨built, reads, finds, found.mp hit, misses, fun inside => Bool.false_ne_true (missed.mpr inside)⟩

end Occurrence

section Binding

variable {m : Bindings} {x y : VarId} {t : Term}

theorem get?_enter (m : Bindings) (x y : VarId) (t : Term) :
    (m.enter x t).get? y = if y = x then some t else (m.erase x).get? y := by
  by_cases same : y = x
  · simp [enter, get?, same]
  · have miss : (y == x) = false := by simpa using same
    rw [if_neg same, get?, enter, List.lookup_cons, miss]
    rfl

/-- The new term is read through the older bindings alone: none of the variables that it leads to is the one that is
being bound. -/
theorem Solved.read_entered (solved : m.Solved) (admits : m.Admits x t) :
    Settles ((m.enter x t).readWithin · t) ((m.erase x).apply t) := by
  have others := solved.erase x
  refine read_of_vars t fun y occurs => ?_
  have differs : y ≠ x := fun same => admits.1 (same ▸ occurs)
  have lookup := m.get?_enter x y t
  rw [if_neg differs] at lookup
  cases found : (m.erase x).get? y with
  | none =>
      rw [image_of_unbound found]
      exact read_unbound (lookup.trans found)
  | some value =>
      rw [image_of_bound found]
      refine read_bound (lookup.trans found) (read_of_unbound value fun z inside => ?_)
      have reached : z ∈ ((m.erase x).apply t).vars :=
        (Term.mem_vars_subst t).mpr ⟨y, occurs, by rwa [image_of_bound found]⟩
      have other : z ≠ x := fun same => admits.2 (same ▸ reached)
      rw [get?_enter, if_neg other]
      exact others.unbound found inside

/-- An older value is read through the new binding alone: it mentions no other bound variable. -/
theorem Solved.read_older (solved : m.Solved) (admits : m.Admits x t) {e : VarId × Term}
    (member : e ∈ (m.erase x).entries) :
    Settles ((m.enter x t).readWithin · e.2) (e.2.subst (Term.single x ((m.erase x).apply t))) := by
  have others := solved.erase x
  refine read_of_vars e.2 fun y occurs => ?_
  have lookup := m.get?_enter x y t
  by_cases same : y = x
  · rw [if_pos same] at lookup
    rw [Term.single, if_pos same]
    exact read_bound lookup (solved.read_entered admits)
  · rw [if_neg same] at lookup
    have free := others e member y occurs
    rw [Option.isNone_iff_eq_none] at free
    rw [Term.single, if_neg same]
    exact read_unbound (lookup.trans free)

/-- Binding by recursion ends with the solved bindings, whether or not the variable was bound before. -/
theorem Solved.bind_settles (solved : m.Solved) (admits : m.Admits x t) :
    Settles (m.bindWithin · x t) (m.bind x t) := by
  have first := (solved.read_entered admits).map fun value => (x, value)
  have rest : List.Forall₂ (fun e e' => Settles (fun depth => ((m.enter x t).readWithin depth e.2).map fun value =>
      (e.1, value)) e') (m.erase x).entries
      ((m.erase x).entries.map fun e => (e.1, e.2.subst (Term.single x ((m.erase x).apply t)))) := by
    rw [List.forall₂_map_right_iff, List.forall₂_same]
    exact fun e member => (solved.read_older admits member).map _
  have all := Settles.mapM (List.Forall₂.cons (R := fun e e' => Settles (fun depth =>
    ((m.enter x t).readWithin depth e.2).map fun value => (e.1, value)) e') (a := (x, t)) first rest)
  exact all.map Bindings.mk

/-- If a call is not admitted, the term mentions the variable that is to be bound, or one whose value mentions it. -/
theorem exists_lead_of_not_admits (refused : ¬ m.Admits x t) :
    ∃ y ∈ t.vars, y = x ∨ ∃ value, (m.erase x).get? y = some value ∧ x ∈ value.vars := by
  by_cases itself : x ∈ t.vars
  · exact ⟨x, itself, .inl rfl⟩
  · have reached : x ∈ ((m.erase x).apply t).vars := by
      by_contra absent
      exact refused ⟨itself, absent⟩
    obtain ⟨y, occurs, inImage⟩ := (Term.mem_vars_subst t).mp reached
    refine ⟨y, occurs, ?_⟩
    cases found : (m.erase x).get? y with
    | none =>
        rw [image_of_unbound found, Term.vars_var, List.mem_singleton] at inImage
        exact .inl inImage.symm
    | some value =>
        rw [image_of_bound found] at inImage
        exact .inr ⟨value, rfl, inImage⟩

/-- A call of `bind` that is not admitted has no end: the variable leads back to itself. -/
theorem bindWithin_of_not_admits (refused : ¬ m.Admits x t) (depth : Nat) : m.bindWithin depth x t = none := by
  obtain ⟨y, occurs, back⟩ := exists_lead_of_not_admits refused
  have entered : (m.enter x t).get? x = some t := by rw [get?_enter, if_pos rfl]
  have leads : ∀ z ∈ ({x, y} : Set VarId), ∃ value, (m.enter x t).get? z = some value ∧
      ∃ z' ∈ value.vars, z' ∈ ({x, y} : Set VarId) := by
    intro z member
    by_cases same : z = x
    · exact ⟨t, same ▸ entered, y, occurs, .inr rfl⟩
    · obtain rfl : z = y := member.resolve_left same
      obtain ⟨value, found, inside⟩ := back.resolve_left same
      exact ⟨value, by rw [get?_enter, if_neg same, found], x, inside, .inl rfl⟩
  have unread := readWithin_of_trap _ leads depth ⟨y, occurs, .inr rfl⟩
  have first : ((m.enter x t).readWithin depth t).map (fun value => (x, value)) = none := by
    rw [unread, Option.map_none]
  exact congrArg (Option.map Bindings.mk) (mapM_eq_none_of_mem (a := (x, t)) List.mem_cons_self first)

/-- What is asked of a call of `bind` is exactly that it ends. -/
theorem Solved.bind_ends_iff (solved : m.Solved) (x : VarId) (t : Term) :
    (∃ m', Settles (m.bindWithin · x t) m') ↔ m.Admits x t := by
  constructor
  · rintro ⟨m', depth, enough⟩
    by_contra refused
    have ended : m.bindWithin depth x t = some m' := enough depth (Nat.le_refl depth)
    rw [bindWithin_of_not_admits refused] at ended
    cases ended
  · exact fun admits => ⟨m.bind x t, solved.bind_settles admits⟩

theorem isBound_eq_false_iff : m.isBound x = false ↔ m.get? x = none := by
  rw [isBound, Option.isSome_eq_false_iff, Option.isNone_iff_eq_none]

/-- Exactly one variable is bound by a call of `bind`. -/
theorem isBound_bind (m : Bindings) (x y : VarId) (t : Term) :
    (m.bind x t).isBound y = true ↔ y = x ∨ m.isBound y = true := by
  rw [isBound, get?_bind]
  by_cases same : y = x
  · simp [same]
  · simp [same, isBound]

/-- What unification may bind is admitted. -/
theorem admits_of_unbound (unbound : m.get? x = none) (absent : x ∉ (m.apply t).vars) : m.Admits x t := by
  refine ⟨fun occurs => absent ?_, ?_⟩
  · refine (Term.mem_vars_subst t).mpr ⟨x, occurs, ?_⟩
    rw [image_of_unbound unbound]
    simp
  · rwa [apply_erase_of_unbound unbound]

end Binding

end Bindings

namespace Unification

open Bindings

variable {m m' : Bindings} {s t : Term} {rest : List Equation} {state : State}

theorem eliminate_built {x : VarId} (built : m.Built) (done : eliminate m x t rest = some state) :
    state.bindings.Built := by
  rcases eliminate_cases done with ⟨_, -, rfl⟩ | ⟨-, -, rfl⟩ | ⟨unbound, -, absent, rfl⟩
  · exact built
  · exact built
  · exact .bind built (admits_of_unbound unbound absent)

theorem stepOn_built (built : m.Built) (done : stepOn m rest s t = some state) : state.bindings.Built := by
  rcases stepOn_cases done with ⟨_, -, first⟩ | ⟨_, -, -, first⟩ | ⟨_, -, -, rfl⟩ | ⟨_, _, _, -, -, -, rfl⟩
  · exact eliminate_built built first
  · exact eliminate_built built first
  · exact built
  · exact built

/-- Unification binds by admitted calls only. -/
theorem solve_built (solved : m.Solved) (pending : List Equation) (built : m.Built)
    (found : solve m solved pending = some m') : m'.Built := by
  fun_induction solve m solved pending with
  | case1 m solved =>
      cases found
      exact built
  | case2 => cases found
  | case3 m solved s t rest state next ih => exact ih (stepOn_built built next) found

end Unification

namespace Bindings

theorem Built.unify {m m' : Bindings} (built : m.Built) {s t : Term} (found : m.unify s t = some m') : m'.Built := by
  rw [built.solved.unify_eq] at found
  exact Unification.solve_built built.solved _ built found

/-- Bindings that come about by admitted calls, those of unification among them, are solved, so that the recursion
reads every term and a second reading changes nothing. A further admitted call ends with bindings that come about so,
also where it replaces a binding; if the variable was not bound, terms are read through them as through the old
bindings and then the new one, and that variable alone has been bound. -/
theorem Built.bind_composes {m : Bindings} (built : m.Built) :
    (∀ x value, m.get? x = some value → ∀ y ∈ value.vars, m.isBound y = false) ∧
    (∀ u, Settles (m.readWithin · u) (m.apply u) ∧ m.apply (m.apply u) = m.apply u) ∧
    (∀ s t m', m.unify s t = some m' → m'.Built) ∧
    ∀ x t, m.Admits x t → Settles (m.bindWithin · x t) (m.bind x t) ∧ (m.bind x t).Built ∧
      (m.isBound x = false →
        (∀ u, Settles ((m.bind x t).readWithin · u) ((m.bind x t).apply u) ∧
          (m.bind x t).apply u = (m.apply u).subst (Term.single x (m.apply t))) ∧
        ∀ y, (m.bind x t).isBound y = true ↔ y = x ∨ m.isBound y = true) := by
  have solved := built.solved
  refine ⟨fun x value bound y occurs => ?_, fun u => ⟨solved.read_settles u, solved.apply_apply u⟩,
    fun s t m' => built.unify, fun x t admits => ?_⟩
  · exact isBound_eq_false_iff.mpr (solved.unbound bound occurs)
  · have after : (m.bind x t).Built := .bind built admits
    refine ⟨solved.bind_settles admits, after, fun unbound => ⟨fun u => ?_, fun y => m.isBound_bind x y t⟩⟩
    exact ⟨after.solved.read_settles u, apply_bind (isBound_eq_false_iff.mp unbound) t u⟩

/-- With `x₀` bound to `g(x₁)`, then to `g(x₂)`, and `x₃` to `g(x₀)`, binding `x₂` to `a` makes `x₃` be read as
`g(g(a))`. -/
theorem bind_composes_chain :
    let m := ((Bindings.empty.bind 0 (.app 7 [.var 1])).bind 0 (.app 7 [.var 2])).bind 3 (.app 7 [.var 0])
    m.Built ∧ m.Admits 2 (.const 8) ∧ Settles (m.bindWithin · 2 (.const 8)) (m.bind 2 (.const 8)) ∧
      Settles ((m.bind 2 (.const 8)).readWithin · (.var 3)) (.app 7 [.app 7 [.const 8]]) ∧
      ∀ y, (m.bind 2 (.const 8)).isBound y = true ↔ y = 2 ∨ m.isBound y = true := by
  intro m
  have built : m.Built := .bind (.bind (.bind .empty (by decide)) (by decide)) (by decide)
  have admits : m.Admits 2 (.const 8) := by decide
  obtain ⟨-, -, -, further⟩ := built.bind_composes
  obtain ⟨ends, -, composes⟩ := further 2 (.const 8) admits
  obtain ⟨reads, bound⟩ := composes (by decide)
  obtain ⟨settles, composed⟩ := reads (.var 3)
  have value : (m.apply (.var 3)).subst (Term.single 2 (m.apply (.const 8))) = .app 7 [.app 7 [.const 8]] := by decide
  rw [composed, value] at settles
  exact ⟨built, admits, ends, settles, bound⟩

end Bindings

end Refutation
