import Refutation.Clause.Basic
import Refutation.Unification.Basic

/-!
Binary resolution. Two clauses resolve on a literal of each, of opposite sign and with the same
predicate, whose atoms unify: what is left of both clauses, read through the unifier, is a resolvent.
-/

namespace Refutation

/-- Two literals to resolve on, each with the other literals of its clause. -/
structure Clash where
  left : Literal
  leftRest : List Literal
  right : Literal
  rightRest : List Literal

/-- The resolvent of a clash, unless the predicates differ or the atoms do not unify. -/
def Clash.resolvent? (symbols : Symbols) (clash : Clash) : Option Clause :=
  if clash.left.predicate = clash.right.predicate then
    (Bindings.empty.unify clash.left.atom clash.right.atom).map fun m =>
      .ofLiterals symbols ((clash.leftRest ++ clash.rightRest).map (Literal.subst m.image))
  else none

namespace Clause

/-- Whether some literal of one clause has the predicate of some literal of the other with the
opposite sign. Without it there is no resolvent. -/
def complementary (c d : Clause) : Bool :=
  c.literals.any fun p => d.literals.any fun q => p.positive != q.positive && p.predicate == q.predicate

/-- The literals of one sign, each with the other literals of the clause. -/
def picksOf (c : Clause) (positive : Bool) : List (Literal × List Literal) :=
  (picks c.literals).filter fun p => p.1.positive == positive

/-- The pairs of literals of opposite sign: first those positive on the left, then the others. -/
def clashes (c d : Clause) : List Clash :=
  [true, false].flatMap fun sign =>
    (c.picksOf sign).flatMap fun p =>
      (d.picksOf !sign).map fun q => ⟨p.1, p.2, q.1, q.2⟩

/-- All resolvents of two clauses, renamed apart. Every one takes its variables from the supply, and
of those that are the same the first stays. -/
def resolve (symbols : Symbols) (c d : Clause) (supply : Supply) : List Clause × Supply :=
  let (renamed, after) := renameAll ((c.clashes d).filterMap (Clash.resolvent? symbols)) supply
  (distinctBy canonical renamed, after)

end Clause

end Refutation
