import Refutation.Bindings.Basic
import Refutation.Term.Order
import Refutation.Term.Text

/-!
Literals: a predicate symbol applied to terms, with a sign.

Literals have two orders. `Literal.compare` takes all variables to be alike, so it does not change
under renaming; `Literal.compareExact` also orders variables by number. Negative literals come first
in both, then predicates by name, then fewer arguments before more.
-/

namespace Refutation

structure Literal where
  positive : Bool
  predicate : SymbolId
  args : List Term
deriving DecidableEq, Hashable

namespace Literal

/-- The literal without its sign, as a term. -/
def atom (l : Literal) : Term := .app l.predicate l.args

def vars (l : Literal) : List VarId := l.atom.vars

def negate (l : Literal) : Literal := { l with positive := !l.positive }

/-- Whether one literal is the negation of the other. -/
def complements (l r : Literal) : Bool := l.positive != r.positive && l.atom == r.atom

def subst (θ : VarId → Term) (l : Literal) : Literal := { l with args := l.args.map (Term.subst θ) }

def rename (ρ : VarId → VarId) (l : Literal) : Literal := l.subst fun x => .var (ρ x)

theorem atom_subst (θ : VarId → Term) (l : Literal) : (l.subst θ).atom = l.atom.subst θ := by
  simp [atom, subst]

theorem atom_rename (ρ : VarId → VarId) (l : Literal) : (l.rename ρ).atom = l.atom.rename ρ :=
  atom_subst _ l

theorem ext_atom {l r : Literal} (signs : l.positive = r.positive) (atoms : l.atom = r.atom) : l = r := by
  cases l
  cases r
  simp_all [atom]

theorem vars_rename (ρ : VarId → VarId) (l : Literal) : (l.rename ρ).vars = l.vars.map ρ := by
  rw [vars, atom_rename, Term.vars_rename, vars]

theorem subst_congr {θ σ : VarId → Term} (l : Literal) (agree : ∀ x ∈ l.vars, θ x = σ x) :
    l.subst θ = l.subst σ := by
  have atoms : (l.subst θ).atom = (l.subst σ).atom := by
    rw [atom_subst, atom_subst]
    exact l.atom.subst_congr agree
  exact ext_atom rfl atoms

theorem subst_subst (θ σ : VarId → Term) (l : Literal) :
    (l.subst θ).subst σ = l.subst fun x => (θ x).subst σ := by
  have atoms : ((l.subst θ).subst σ).atom = (l.subst fun x => (θ x).subst σ).atom := by
    rw [atom_subst, atom_subst, atom_subst, Term.subst_subst]
  exact ext_atom rfl atoms

theorem rename_congr {ρ σ : VarId → VarId} (l : Literal) (agree : ∀ x ∈ l.vars, ρ x = σ x) :
    l.rename ρ = l.rename σ :=
  l.subst_congr fun x member => congrArg Term.var (agree x member)

theorem rename_rename (ρ σ : VarId → VarId) (l : Literal) :
    (l.rename ρ).rename σ = l.rename fun x => σ (ρ x) := by
  rw [rename, rename, subst_subst]
  simp only [Term.subst_var]
  rfl

theorem subst_eq_self {θ : VarId → Term} (l : Literal) (fixed : ∀ x ∈ l.vars, θ x = .var x) :
    l.subst θ = l := by
  have atoms : (l.subst θ).atom = l.atom := by
    rw [atom_subst]
    exact l.atom.subst_eq_self fixed
  exact ext_atom rfl atoms

theorem rename_eq_self {ρ : VarId → VarId} (l : Literal) (fixed : ∀ x ∈ l.vars, ρ x = x) :
    l.rename ρ = l :=
  l.subst_eq_self fun x member => congrArg Term.var (fixed x member)

def compareWith (symbols : Symbols) (onVars : VarId → VarId → Ordering) (l r : Literal) : Ordering :=
  (Ord.compare l.positive r.positive).then (l.atom.compareWith symbols onVars r.atom)

/-- The order that takes all variables to be alike. -/
def compare (symbols : Symbols) (l r : Literal) : Ordering := l.compareWith symbols (fun _ _ => .eq) r

/-- The order that compares variables by number. -/
def compareExact (symbols : Symbols) (l r : Literal) : Ordering :=
  l.compareWith symbols (fun x y => Ord.compare x y) r

/-- The characters of the literal, with `~` before a negative one. -/
def chars (symbols : Symbols) (l : Literal) : List Char :=
  if l.positive then l.atom.chars symbols else '~' :: l.atom.chars symbols

def text (symbols : Symbols) (l : Literal) : String := String.ofList (l.chars symbols)

end Literal

end Refutation
