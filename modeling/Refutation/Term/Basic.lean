import Refutation.Symbols

/-!
First-order terms: constants, variables, and applications of a function symbol to a list of terms.
An application to no arguments is not the constant of the same symbol.

Every function on terms comes with its companion on lists of terms, and a lemma that gives the
companion as the usual list operation, so that proofs go by `Term.induct`.
-/

namespace Refutation

abbrev VarId := Nat

inductive Term where
  | const (symbol : SymbolId)
  | var (id : VarId)
  | app (function : SymbolId) (args : List Term)
deriving Inhabited

namespace Term

/-- Induction with the hypothesis for each argument of an application. -/
theorem induct {motive : Term → Prop} (const : ∀ c, motive (.const c)) (var : ∀ x, motive (.var x))
    (app : ∀ f args, (∀ t ∈ args, motive t) → motive (.app f args)) : ∀ t, motive t
  | .const c => const c
  | .var x => var x
  | .app f args => app f args (inArgs args)
where
  inArgs : ∀ args : List Term, ∀ t ∈ args, motive t
    | [], _, member => absurd member List.not_mem_nil
    | t :: rest, s, member =>
      match List.mem_cons.mp member with
      | .inl same => same ▸ induct const var app t
      | .inr later => inArgs rest s later

mutual

def decEq : (s t : Term) → Decidable (s = t)
  | .const c, .const d =>
      if same : c = d then isTrue (by rw [same]) else isFalse (by simpa using same)
  | .var x, .var y =>
      if same : x = y then isTrue (by rw [same]) else isFalse (by simpa using same)
  | .app f ss, .app g ts =>
      if same : f = g then
        match decEqAll ss ts with
        | isTrue args => isTrue (by rw [same, args])
        | isFalse args => isFalse (by simp [args])
      else isFalse (by simp [same])
  | .const _, .var _ => isFalse (by simp)
  | .const _, .app _ _ => isFalse (by simp)
  | .var _, .const _ => isFalse (by simp)
  | .var _, .app _ _ => isFalse (by simp)
  | .app _ _, .const _ => isFalse (by simp)
  | .app _ _, .var _ => isFalse (by simp)

def decEqAll : (ss ts : List Term) → Decidable (ss = ts)
  | [], [] => isTrue rfl
  | [], _ :: _ => isFalse (by simp)
  | _ :: _, [] => isFalse (by simp)
  | s :: ss, t :: ts =>
      match decEq s t with
      | isTrue head =>
          match decEqAll ss ts with
          | isTrue tail => isTrue (by rw [head, tail])
          | isFalse tail => isFalse (by simp [tail])
      | isFalse head => isFalse (by simp [head])

end

instance : DecidableEq Term := decEq

mutual

def hashCode : Term → UInt64
  | .const c => mixHash 3 (hash c)
  | .var x => mixHash 5 (hash x)
  | .app f args => mixHash (mixHash 7 (hash f)) (hashCodeAll args)

def hashCodeAll : List Term → UInt64
  | [] => 11
  | t :: ts => mixHash (hashCode t) (hashCodeAll ts)

end

instance : Hashable Term := ⟨hashCode⟩

def isVar : Term → Bool
  | .var _ => true
  | _ => false

mutual

/-- The variables of a term from left to right, with repetitions. -/
def vars : Term → List VarId
  | .const _ => []
  | .var x => [x]
  | .app _ args => varsAll args

def varsAll : List Term → List VarId
  | [] => []
  | t :: ts => vars t ++ varsAll ts

end

mutual

/-- Replaces every variable at once by the term that the substitution gives for it. -/
def subst (θ : VarId → Term) : Term → Term
  | .const c => .const c
  | .var x => θ x
  | .app f args => .app f (substAll θ args)

def substAll (θ : VarId → Term) : List Term → List Term
  | [] => []
  | t :: ts => subst θ t :: substAll θ ts

end

/-- Replaces every variable at once by another variable. -/
def rename (ρ : VarId → VarId) (t : Term) : Term := t.subst fun x => .var (ρ x)

mutual

/-- The number of symbols and variables in a term. -/
def size : Term → Nat
  | .const _ => 1
  | .var _ => 1
  | .app _ args => sizeAll args + 1

def sizeAll : List Term → Nat
  | [] => 0
  | t :: ts => size t + sizeAll ts

end

theorem varsAll_eq_flatMap (ts : List Term) : varsAll ts = ts.flatMap vars := by
  induction ts with
  | nil => rfl
  | cons t ts ih => rw [varsAll, ih, List.flatMap_cons]

theorem substAll_eq_map (θ : VarId → Term) (ts : List Term) : substAll θ ts = ts.map (subst θ) := by
  induction ts with
  | nil => rfl
  | cons t ts ih => rw [substAll, ih, List.map_cons]

@[simp] theorem vars_const (c : SymbolId) : (Term.const c).vars = [] := by rw [vars]

@[simp] theorem vars_var (x : VarId) : (Term.var x).vars = [x] := by rw [vars]

@[simp] theorem vars_app (f : SymbolId) (args : List Term) :
    (Term.app f args).vars = args.flatMap vars := by
  rw [vars, varsAll_eq_flatMap]

@[simp] theorem subst_const (θ : VarId → Term) (c : SymbolId) : (Term.const c).subst θ = .const c := by
  rw [subst]

@[simp] theorem subst_var (θ : VarId → Term) (x : VarId) : (Term.var x).subst θ = θ x := by
  rw [subst]

@[simp] theorem subst_app (θ : VarId → Term) (f : SymbolId) (args : List Term) :
    (Term.app f args).subst θ = .app f (args.map (subst θ)) := by
  rw [subst, substAll_eq_map]

theorem size_pos (t : Term) : 0 < t.size := by
  cases t <;> simp [size]

/-- A substitution matters only on the variables of the term. -/
theorem subst_congr {θ σ : VarId → Term} (t : Term) (agree : ∀ x ∈ t.vars, θ x = σ x) :
    t.subst θ = t.subst σ := by
  induction t using Term.induct with
  | const c => simp
  | var x => simpa using agree
  | app f args ih =>
      rw [subst_app, subst_app]
      congr 1
      apply List.map_congr_left
      intro t member
      apply ih t member
      intro x occurs
      exact agree x (by rw [vars_app, List.mem_flatMap]; exact ⟨t, member, occurs⟩)

theorem subst_eq_self {θ : VarId → Term} (t : Term) (fixed : ∀ x ∈ t.vars, θ x = .var x) :
    t.subst θ = t := by
  induction t using Term.induct with
  | const c => simp
  | var x => simpa using fixed
  | app f args ih =>
      rw [subst_app]
      congr 1
      rw [List.map_congr_left (g := id), List.map_id]
      intro t member
      apply ih t member
      intro x occurs
      exact fixed x (by rw [vars_app, List.mem_flatMap]; exact ⟨t, member, occurs⟩)

/-- Substituting twice is substituting once by the composed substitution. -/
theorem subst_subst (θ σ : VarId → Term) (t : Term) :
    (t.subst θ).subst σ = t.subst fun x => (θ x).subst σ := by
  induction t using Term.induct with
  | const c => simp
  | var x => simp
  | app f args ih =>
      simp only [subst_app, List.map_map]
      congr 1
      apply List.map_congr_left
      intro t member
      exact ih t member

theorem mem_vars_subst {θ : VarId → Term} {y : VarId} (t : Term) :
    y ∈ (t.subst θ).vars ↔ ∃ x ∈ t.vars, y ∈ (θ x).vars := by
  induction t using Term.induct with
  | const c => simp
  | var x => simp
  | app f args ih =>
      simp only [subst_app, vars_app, List.mem_flatMap, List.mem_map]
      constructor
      · rintro ⟨_, ⟨t, member, rfl⟩, occurs⟩
        obtain ⟨x, inTerm, inImage⟩ := (ih t member).mp occurs
        exact ⟨x, ⟨t, member, inTerm⟩, inImage⟩
      · rintro ⟨x, ⟨t, member, inTerm⟩, inImage⟩
        exact ⟨_, ⟨t, member, rfl⟩, (ih t member).mpr ⟨x, inTerm, inImage⟩⟩

@[simp] theorem rename_const (ρ : VarId → VarId) (c : SymbolId) : (Term.const c).rename ρ = .const c := by
  rw [rename, subst_const]

@[simp] theorem rename_var (ρ : VarId → VarId) (x : VarId) : (Term.var x).rename ρ = .var (ρ x) := by
  rw [rename, subst_var]

@[simp] theorem rename_app (ρ : VarId → VarId) (f : SymbolId) (args : List Term) :
    (Term.app f args).rename ρ = .app f (args.map (rename ρ)) := by
  rw [rename, subst_app]
  rfl

theorem vars_rename (ρ : VarId → VarId) (t : Term) : (t.rename ρ).vars = t.vars.map ρ := by
  induction t using Term.induct with
  | const c => simp
  | var x => simp
  | app f args ih =>
      rw [rename_app, vars_app, vars_app, List.flatMap_map, List.map_flatMap, List.flatMap_def,
        List.flatMap_def, List.map_congr_left ih]

end Term

end Refutation
