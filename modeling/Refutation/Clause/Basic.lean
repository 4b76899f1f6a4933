import Refutation.Clause.Arrangement

/-!
Clauses: disjunctions of literals, known up to the order and repetition of literals and the names of
variables. A clause keeps its literals in the canonical arrangement, negative ones first, together
with the place where the positive ones begin and their standard form, and two clauses are the same
clause if their standard forms are equal. Renaming variables touches neither of the two.
-/

namespace Refutation

/-- How many literals come before the first positive one. -/
def leadingNegatives (literals : List Literal) : Nat := (literals.takeWhile fun l => !l.positive).length

theorem leadingNegatives_map_rename (ρ : VarId → VarId) (literals : List Literal) :
    leadingNegatives (literals.map (Literal.rename ρ)) = leadingNegatives literals := by
  rw [leadingNegatives, List.takeWhile_map, List.length_map]
  rfl

theorem leadingNegatives_standardForm (literals : List Literal) :
    leadingNegatives (standardForm literals) = leadingNegatives literals :=
  leadingNegatives_map_rename _ literals

structure Clause where
  literals : List Literal
  split : Nat
  canonical : List Literal
  divided : split = leadingNegatives literals
  standard : canonical = standardForm literals

namespace Clause

/-- The clause of some literals, in whatever order and however often they are given. -/
def ofLiterals (symbols : Symbols) (literals : List Literal) : Clause :=
  let sorted := literals.eraseDups.mergeSort fun l r => (l.compare symbols r).isLE
  let best := Arrangement.best symbols sorted
  ⟨best.chosen, leadingNegatives best.chosen, best.standard, rfl, best.standardized⟩

def empty : Clause := ⟨[], 0, [], rfl, standardForm_nil.symm⟩

def isEmpty (c : Clause) : Bool := c.literals.isEmpty

def size (c : Clause) : Nat := c.literals.length

def negative (c : Clause) : List Literal := c.literals.take c.split

def positive (c : Clause) : List Literal := c.literals.drop c.split

/-- The variables from left to right, with repetitions. -/
def vars (c : Clause) : List VarId := c.literals.flatMap Literal.vars

/-- Equality up to renaming. -/
def Same (c d : Clause) : Prop := c.canonical = d.canonical

instance (c d : Clause) : Decidable (c.Same d) := inferInstanceAs (Decidable (c.canonical = d.canonical))

/-- The representative of the clause with variables `0, 1, …` by first occurrence. -/
def standardize (c : Clause) : Clause :=
  ⟨c.canonical, c.split, c.canonical, by rw [c.divided, c.standard, leadingNegatives_standardForm],
    by rw [c.standard, standardForm_standardForm]⟩

private theorem divided_rename (c : Clause) (supply : Supply) :
    c.split = leadingNegatives (c.literals.map (Literal.rename (supply.issue (.ofList c.vars)).1)) := by
  rw [c.divided, leadingNegatives_map_rename]

private theorem standard_rename (c : Clause) (supply : Supply) :
    c.canonical = standardForm (c.literals.map (Literal.rename (supply.issue (.ofList c.vars)).1)) := by
  rw [c.standard, standardForm_map_rename]
  intro x member y _ same
  exact Naming.index_inj (Naming.mem_ofList.mpr member) (Nat.add_left_cancel same)

/-- Renames the variables to fresh ones, by first occurrence. Literals keep their places and signs, so
neither the standard form changes nor where the positive ones begin. -/
def rename (c : Clause) (supply : Supply) : Clause × Supply :=
  let block := supply.issue (.ofList c.vars)
  (⟨c.literals.map (Literal.rename block.1), c.split, c.canonical, divided_rename c supply,
    standard_rename c supply⟩, block.2)

/-- Renames clauses one after the other, so that no two of them share a variable. -/
def renameAll : List Clause → Supply → List Clause × Supply
  | [], supply => ([], supply)
  | c :: cs, supply =>
      let (fresh, after) := c.rename supply
      let (others, last) := renameAll cs after
      (fresh :: others, last)

/-- The texts of literals with bars between them. -/
def charsOf (symbols : Symbols) : List Literal → List Char
  | [] => []
  | [l] => l.chars symbols
  | l :: ls => l.chars symbols ++ ' ' :: '|' :: ' ' :: charsOf symbols ls

def text (symbols : Symbols) (c : Clause) : String :=
  if c.isEmpty then "$false" else String.ofList (charsOf symbols c.literals)

end Clause

end Refutation
