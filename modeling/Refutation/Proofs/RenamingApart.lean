import Refutation.Proofs.Representation
import Refutation.Proofs.StandardizedApart

/-!
Renaming apart, variable by variable. A renamer goes through the literals of a clause from left to right. It keeps the
names that it has given; a variable that it has met before gets its name again, any other the next one of the supply,
as long as that has one. A variable may be renamed to the number that another one had, so the table of names has to be
consulted with the old variables only.

What the renamer knows after some variables is a naming of them, shifted by what the supply had issued before. So going
through all literals is renaming them at once by that naming, and the names are those that follow in the supply, in the
order in which the variables are first met.
-/

namespace Refutation

/-- How many variables a supply can issue. -/
def Supply.limit : Nat := Nat.pow 2 32 - 1

/-- The next variable of a supply that has one. -/
def Supply.next? (supply : Supply) : Option (VarId × Supply) :=
  if supply.issued < Supply.limit then some (supply.issued, ⟨supply.issued + 1⟩) else none

/-- The names that were given to variables, and the supply of further ones. -/
structure Renamer where
  given : List (VarId × VarId)
  supply : Supply

namespace Renamer

/-- The name of a variable: the one that it has, or the next of the supply. -/
def name? (r : Renamer) (x : VarId) : Option (VarId × Renamer) :=
  match r.given.lookup x with
  | some y => some (y, r)
  | none => r.supply.next?.map fun (y, supply) => (y, ⟨(x, y) :: r.given, supply⟩)

mutual

def term? (r : Renamer) : Term → Option (Term × Renamer)
  | .const c => some (.const c, r)
  | .var x => (r.name? x).map fun (y, r) => (.var y, r)
  | .app f args => (r.terms? args).map fun (args, r) => (.app f args, r)

def terms? (r : Renamer) : List Term → Option (List Term × Renamer)
  | [] => some ([], r)
  | t :: ts =>
      (r.term? t).bind fun (t, r) => (r.terms? ts).bind fun (ts, r) => some (t :: ts, r)

end

def literal? (r : Renamer) (l : Literal) : Option (Literal × Renamer) :=
  (r.terms? l.args).map fun (args, r) => ({ l with args }, r)

def literals? (r : Renamer) : List Literal → Option (List Literal × Renamer)
  | [] => some ([], r)
  | l :: ls =>
      (r.literal? l).bind fun (l, r) => (r.literals? ls).bind fun (ls, r) => some (l :: ls, r)

/-- What a renamer knows behind the variables of a naming, if the supply had issued so many before. -/
structure Follows (first : Nat) (naming : Naming) (r : Renamer) : Prop where
  issued : r.supply.issued = first + naming.size
  given : ∀ x, r.given.lookup x = if x ∈ naming.order then some (first + naming.index x) else none

theorem follows_empty (supply : Supply) : Follows supply.issued .empty ⟨[], supply⟩ :=
  ⟨rfl, fun _ => rfl⟩

/-- A variable is named as it is added to the naming. -/
theorem Follows.name {first : Nat} {naming : Naming} {r : Renamer} (follows : r.Follows first naming) (x : VarId)
    (enough : first + (naming.add x).size ≤ Supply.limit) :
    ∃ after, r.name? x = some (first + (naming.add x).index x, after) ∧ after.Follows first (naming.add x) := by
  have known := follows.given x
  unfold name?
  by_cases met : x ∈ naming.order
  · rw [if_pos met] at known
    rw [known, Naming.add_of_mem met]
    exact ⟨r, rfl, follows⟩
  · have order := Naming.order_add_of_not_mem met
    have size : (naming.add x).size = naming.size + 1 := by simp [Naming.size, order]
    have last : (naming.add x).index x = naming.size := by simp [Naming.index, order, List.idxOf_append, met, Naming.size]
    have next : r.supply.next? = some (r.supply.issued, ⟨r.supply.issued + 1⟩) := by
      rw [Supply.next?, follows.issued, if_pos (by omega)]
    rw [if_neg met] at known
    rw [known, next, last]
    refine ⟨⟨(x, r.supply.issued) :: r.given, ⟨r.supply.issued + 1⟩⟩, by rw [follows.issued]; rfl, ?_, fun y => ?_⟩
    · show r.supply.issued + 1 = _
      rw [follows.issued, size, Nat.add_assoc]
    · rw [List.lookup_cons]
      by_cases same : y = x
      · simp [same, last, follows.issued]
      · have earlier : y ∈ naming.order → (naming.add x).index y = naming.index y := fun old =>
          Naming.index_addAll old [x]
        have miss : (y == x) = false := by simpa using same
        rw [miss, follows.given]
        simp only [Naming.mem_add, same, or_false]
        split
        · next old => rw [earlier old]
        · rfl

/-- Whether a computation meets some variables and makes of their names what is said, as far as the supply lasts. -/
def Names {α : Type} (xs : List VarId) (value : (VarId → VarId) → α) (run : Renamer → Option (α × Renamer)) : Prop :=
  ∀ first naming r, Follows first naming r → first + (naming.addAll xs).size ≤ Supply.limit →
    ∃ after, run r = some (value fun x => first + (naming.addAll xs).index x, after) ∧
      after.Follows first (naming.addAll xs)

section Names

variable {α β γ : Type} {xs ys : List VarId} {value : (VarId → VarId) → α} {value' : (VarId → VarId) → β}
  {run : Renamer → Option (α × Renamer)} {run' : Renamer → Option (β × Renamer)}

theorem names_nothing (a : α) : Names [] (fun _ => a) fun r => some (a, r) :=
  fun _ _ r follows _ => ⟨r, rfl, follows⟩

theorem Names.map (names : Names xs value run) (f : α → β) :
    Names xs (fun ρ => f (value ρ)) fun r => (run r).map fun (a, after) => (f a, after) := by
  intro first naming r follows enough
  obtain ⟨after, done, further⟩ := names first naming r follows enough
  exact ⟨after, by simp [done], further⟩

/-- Of two computations the second goes on with the names that the first has given, and changes none of them. -/
theorem Names.append (names : Names xs value run) (names' : Names ys value' run') (join : α → β → γ)
    (only : ∀ ρ σ, (∀ x ∈ xs, ρ x = σ x) → value ρ = value σ) :
    Names (xs ++ ys) (fun ρ => join (value ρ) (value' ρ)) fun r =>
      (run r).bind fun (a, between) => (run' between).bind fun (b, after) => some (join a b, after) := by
  intro first naming r follows enough
  rw [Naming.addAll_append] at enough ⊢
  have fewer : (naming.addAll xs).size ≤ ((naming.addAll xs).addAll ys).size :=
    ((naming.addAll xs).order_isPrefix_addAll ys).length_le
  obtain ⟨between, done, middle⟩ := names first naming r follows (by omega)
  obtain ⟨after, done', further⟩ := names' first _ between middle enough
  have kept : value (fun x => first + (naming.addAll xs).index x) =
      value fun x => first + ((naming.addAll xs).addAll ys).index x := by
    apply only
    intro x member
    rw [Naming.index_addAll (Naming.mem_addAll.mpr (.inr member))]
  exact ⟨after, by simp [done, done', kept], further⟩

theorem names_var (x : VarId) : Names [x] (fun ρ => ρ x) (name? · x) :=
  fun _ _ _ follows enough => follows.name x enough

end Names

theorem names_terms {ts : List Term} (each : ∀ t ∈ ts, Names t.vars (fun ρ => t.rename ρ) (term? · t)) :
    Names (ts.flatMap Term.vars) (fun ρ => ts.map (Term.rename ρ)) (terms? · ts) := by
  induction ts with
  | nil => exact names_nothing []
  | cons t ts ih =>
      obtain ⟨head, tail⟩ := List.forall_mem_cons.mp each
      refine head.append (ih tail) List.cons fun ρ σ agree => ?_
      exact t.subst_congr fun x occurs => congrArg Term.var (agree x occurs)

theorem names_term (t : Term) : Names t.vars (fun ρ => t.rename ρ) (term? · t) := by
  induction t using Term.induct with
  | const c =>
      simp only [Term.vars_const, Term.rename_const]
      exact names_nothing (Term.const c)
  | var x =>
      simp only [Term.vars_var, Term.rename_var]
      exact (names_var x).map Term.var
  | app f args ih =>
      simp only [Term.vars_app, Term.rename_app]
      exact (names_terms ih).map (Term.app f)

theorem names_literal (l : Literal) : Names l.vars (fun ρ => l.rename ρ) (literal? · l) := by
  rw [Literal.vars, Literal.atom, Term.vars_app]
  exact (names_terms fun t _ => names_term t).map fun args => { l with args }

theorem names_literals (ls : List Literal) :
    Names (ls.flatMap Literal.vars) (fun ρ => ls.map (Literal.rename ρ)) (literals? · ls) := by
  induction ls with
  | nil => exact names_nothing []
  | cons l ls ih => exact (names_literal l).append ih List.cons fun ρ σ => l.rename_congr

end Renamer

/-- The names of a naming's own variables, in its order, are all the numbers below its size. -/
theorem Naming.map_index (naming : Naming) (first : Nat) :
    naming.order.map (fun x => first + naming.index x) = List.range' first naming.size := by
  apply List.ext_getElem
  · simp [size]
  · intro i _ _
    simp [index, naming.distinct.idxOf_getElem]

namespace Clause

/-- Renames the variables of a clause one after the other, each as it is met. -/
def renameInTurn? (c : Clause) (supply : Supply) : Option (List Literal × Supply) :=
  (Renamer.literals? ⟨[], supply⟩ c.literals).map fun (literals, r) => (literals, r.supply)

theorem size_naming_vars (c : Clause) : (Naming.ofList c.vars).size = c.vars.eraseDups.length := by
  rw [Naming.size, Naming.order_ofList]

/-- Renaming as the variables are met is renaming all at once, if the supply lasts. -/
theorem renameInTurn?_eq (c : Clause) (supply : Supply)
    (enough : supply.issued + c.vars.eraseDups.length ≤ Supply.limit) :
    c.renameInTurn? supply = some ((c.rename supply).1.literals, (c.rename supply).2) := by
  rw [← size_naming_vars] at enough
  obtain ⟨after, done, follows⟩ := Renamer.names_literals c.literals _ _ _ (Renamer.follows_empty supply) enough
  have literals : Renamer.literals? ⟨[], supply⟩ c.literals = some ((c.rename supply).1.literals, after) := done
  have last : after.supply = (c.rename supply).2 := congrArg Supply.mk follows.issued
  rw [renameInTurn?, literals, ← last]
  rfl

theorem vars_rename (c : Clause) (supply : Supply) :
    (c.rename supply).1.vars = c.vars.map fun x => supply.issued + (Naming.ofList c.vars).index x :=
  flatMap_vars_rename _ _

theorem injOn_rename (c : Clause) (supply : Supply) :
    Set.InjOn (fun x => supply.issued + (Naming.ofList c.vars).index x) {x | x ∈ c.vars} :=
  fun _ inside _ _ same => Naming.index_inj (Naming.mem_ofList.mpr inside) (Nat.add_left_cancel same)

theorem distinct_vars_rename (c : Clause) (supply : Supply) :
    (c.rename supply).1.vars.eraseDups = List.range' supply.issued c.vars.eraseDups.length := by
  have injective := c.injOn_rename supply
  rw [vars_rename, ← Naming.order_ofList, Naming.order_ofList_map fun x inX y inY => injective inX inY,
    Naming.map_index, size_naming_vars]

/-- A renamed clause is the same clause. Its literals are those of the clause, in their places, under one injective
renaming; their variables are the next ones of the supply in the order of first occurrence, as many as the clause has,
and no others are issued. It is what comes out if the literals are gone through and each variable is renamed as it is
met, for which the supply has to last. -/
theorem rename_apart (c : Clause) (supply : Supply) :
    let copy := (c.rename supply).1
    let after := (c.rename supply).2
    copy.Same c ∧
    (∃ ρ : VarId → VarId, Set.InjOn ρ {x | x ∈ c.vars} ∧ copy.literals = c.literals.map (Literal.rename ρ)) ∧
    copy.vars.eraseDups = List.range' supply.issued c.vars.eraseDups.length ∧
    after.issued = supply.issued + c.vars.eraseDups.length ∧
    (after.issued ≤ Supply.limit → c.renameInTurn? supply = some (copy.literals, after)) := by
  intro copy after
  have issued : after.issued = supply.issued + c.vars.eraseDups.length := by
    rw [← size_naming_vars]
    exact c.issued_rename supply
  refine ⟨rfl, ⟨_, c.injOn_rename supply, rfl⟩, c.distinct_vars_rename supply, issued, fun lasts => ?_⟩
  exact c.renameInTurn?_eq supply (issued ▸ lasts)

/-- A supply that goes on with a number that the clause has: `x₄` becomes `x₅`, and `x₅` becomes `x₆`. -/
theorem rename_apart_overlap :
    let c : Clause := ⟨[⟨false, 0, [.var 4, .var 5]⟩, ⟨true, 0, [.app 1 [.var 5], .var 4]⟩], 1,
      [⟨false, 0, [.var 0, .var 1]⟩, ⟨true, 0, [.app 1 [.var 1], .var 0]⟩], by decide, by decide⟩
    (c.rename ⟨5⟩).2.issued ≤ Supply.limit ∧
      c.renameInTurn? ⟨5⟩ = some ((c.rename ⟨5⟩).1.literals, (c.rename ⟨5⟩).2) ∧
      (c.rename ⟨5⟩).1.literals = [⟨false, 0, [.var 5, .var 6]⟩, ⟨true, 0, [.app 1 [.var 6], .var 5]⟩] ∧
      (c.rename ⟨5⟩).1.vars.eraseDups = [5, 6] := by
  intro c
  obtain ⟨-, -, distinct, -, inTurn⟩ := c.rename_apart ⟨5⟩
  have lasts : (c.rename ⟨5⟩).2.issued ≤ Supply.limit := by decide
  exact ⟨lasts, inTurn lasts, by decide, distinct⟩

end Clause

end Refutation
