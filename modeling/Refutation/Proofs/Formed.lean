import Refutation.Proofs.Passes

/-!
Clauses over a symbol table. A clause is formed over a table if it is the same as one made of literals
whose symbols the table has. For formed clauses identity is exactly equality up to the names of
variables. Unification brings in no symbol, so resolvents of formed clauses are formed, and with them
everything that a search comes to know.
-/

namespace Refutation

theorem Term.over_var {table : Symbols} (x : VarId) : (Term.var x).Over table := by
  simp [Term.Over, Term.symbols]

theorem Term.over_subst {table : Symbols} {θ : VarId → Term} (images : ∀ x, (θ x).Over table) (t : Term)
    (inTable : t.Over table) : (t.subst θ).Over table := by
  induction t using Term.induct with
  | const c => rwa [subst_const]
  | var x =>
      rw [subst_var]
      exact images x
  | app f args ih =>
      rw [over_app] at inTable
      rw [subst_app, over_app]
      refine ⟨inTable.1, fun s member => ?_⟩
      obtain ⟨t, inside, rfl⟩ := List.mem_map.mp member
      exact ih t inside (inTable.2 t inside)

namespace Unification

/-- Whether every term of a state is over the table. -/
structure State.Over (table : Symbols) (state : State) : Prop where
  images : ∀ x, (state.bindings.image x).Over table
  pending : ∀ e ∈ state.pending, e.1.Over table ∧ e.2.Over table

variable {table : Symbols} {m m' : Bindings} {s t : Term} {x : VarId} {rest : List Equation} {state : State}

theorem eliminate_over (done : eliminate m x t rest = some state) (before : State.Over table ⟨m, rest⟩)
    (inTable : t.Over table) : state.Over table := by
  rcases eliminate_cases done with ⟨value, bound, rfl⟩ | ⟨-, -, rfl⟩ | ⟨unbound, -, -, rfl⟩
  · have known : value.Over table := Bindings.image_of_bound bound ▸ before.images x
    exact ⟨before.images, List.forall_mem_cons.mpr ⟨⟨known, inTable⟩, before.pending⟩⟩
  · exact before
  · refine ⟨fun y => ?_, before.pending⟩
    show ((m.bind x t).image y).Over table
    rw [Bindings.image_bind unbound]
    apply Term.over_subst _ _ (before.images y)
    intro z
    by_cases same : z = x
    · rw [Term.single, if_pos same]
      exact Term.over_subst before.images t inTable
    · rw [Term.single, if_neg same]
      exact Term.over_var z

/-- A step brings in no symbol. -/
theorem stepOn_over (done : stepOn m rest s t = some state)
    (before : State.Over table ⟨m, (s, t) :: rest⟩) : state.Over table := by
  obtain ⟨⟨left, right⟩, others⟩ := List.forall_mem_cons.mp before.pending
  have behind : State.Over table ⟨m, rest⟩ := ⟨before.images, others⟩
  rcases stepOn_cases done with ⟨x, rfl, first⟩ | ⟨y, rfl, -, first⟩ | ⟨c, rfl, rfl, rfl⟩ | ⟨f, ss, ts, rfl, rfl, -, rfl⟩
  · exact eliminate_over first behind right
  · exact eliminate_over first behind left
  · exact behind
  · refine ⟨before.images, List.forall_mem_append.mpr ⟨fun e member => ?_, others⟩⟩
    have sides := List.of_mem_zip member
    exact ⟨(Term.over_app.mp left).2 e.1 sides.1, (Term.over_app.mp right).2 e.2 sides.2⟩

theorem solve_over (solved : m.Solved) (pending : List Equation) (found : solve m solved pending = some m')
    (before : State.Over table ⟨m, pending⟩) : ∀ x, (m'.image x).Over table := by
  fun_induction solve m solved pending with
  | case1 m solved =>
      cases found
      exact before.images
  | case2 => cases found
  | case3 m solved s t rest state next ih => exact ih found (stepOn_over next before)

end Unification

/-- The terms that unification binds variables to are over the table of the two terms. -/
theorem Bindings.image_over_of_unify {table : Symbols} {m : Bindings} {s t : Term}
    (found : Bindings.empty.unify s t = some m) (left : s.Over table) (right : t.Over table) (x : VarId) :
    (m.image x).Over table := by
  rw [solved_empty.unify_eq] at found
  refine Unification.solve_over solved_empty _ found ⟨fun y => ?_, ?_⟩ x
  · show (Bindings.empty.image y).Over table
    rw [image_of_unbound (get?_empty y)]
    exact Term.over_var y
  · intro e member
    rw [List.mem_singleton] at member
    rw [member]
    exact ⟨left, right⟩

theorem Literal.over_subst {table : Symbols} {θ : VarId → Term} (images : ∀ x, (θ x).Over table) (l : Literal)
    (inTable : l.Over table) : (l.subst θ).Over table := by
  rw [Over, atom_subst]
  exact Term.over_subst images l.atom inTable

namespace Clause

/-- Whether a clause is made of literals over the table, up to the names of variables. -/
def Formed (symbols : Symbols) (c : Clause) : Prop :=
  ∃ literals, (∀ l ∈ literals, l.Over symbols) ∧ c.Same (.ofLiterals symbols literals)

variable {symbols : Symbols} {c d r : Clause}

theorem formed_ofLiterals {literals : List Literal} (inTable : ∀ l ∈ literals, l.Over symbols) :
    (ofLiterals symbols literals).Formed symbols := ⟨literals, inTable, rfl⟩

namespace Formed

theorem of_same (same : c.Same d) (formed : d.Formed symbols) : c.Formed symbols := by
  obtain ⟨literals, inTable, made⟩ := formed
  exact ⟨literals, inTable, same.trans made⟩

theorem rename (formed : c.Formed symbols) (supply : Supply) : (c.rename supply).1.Formed symbols :=
  of_same rfl formed

theorem over_literals (formed : c.Formed symbols) : ∀ l ∈ c.literals, l.Over symbols := by
  obtain ⟨literals, inTable, same⟩ := formed
  obtain ⟨ρ, renames⟩ := exists_renames_of_same same
  intro l member
  have made := renames.rename_mem member
  rw [mem_ofLiterals] at made
  exact Literal.over_rename.mp (inTable _ made)

theorem nodup_literals (formed : c.Formed symbols) : c.literals.Nodup := by
  obtain ⟨literals, -, same⟩ := formed
  have distinct : (standardForm (ofLiterals symbols literals).literals).Nodup :=
    List.Nodup.map_on (fun l inside r within => (renames_standardForm _).injOn_rename inside within)
      (nodup_ofLiterals symbols literals)
  rw [← Clause.standard, ← same, Clause.standard] at distinct
  exact List.Nodup.of_map _ distinct

/-- Formed clauses that are renamed copies of each other are the same. -/
theorem same_of_renames {ρ : VarId → VarId} (left : c.Formed symbols) (right : d.Formed symbols)
    (renames : Renames ρ c.literals d.literals) : c.Same d := by
  obtain ⟨first, overFirst, sameFirst⟩ := left
  obtain ⟨second, overSecond, sameSecond⟩ := right
  have members : ∀ literals l, l ∈ (ofLiterals symbols literals).literals ↔ l ∈ literals :=
    fun literals l => mem_ofLiterals symbols literals
  obtain ⟨σ, toFirst⟩ := exists_renames_of_same sameFirst
  obtain ⟨σ', fromFirst, -⟩ := toFirst.inverse
  obtain ⟨τ, toSecond⟩ := exists_renames_of_same sameSecond
  have whole := (((Renames.of_mem_iff fun l => (members first l).symm).trans fromFirst).trans renames).trans
    (toSecond.trans (Renames.of_mem_iff (members second)))
  obtain ⟨back, reverse, -⟩ := whole.inverse
  have forms : (ofLiterals symbols first).canonical = (ofLiterals symbols second).canonical :=
    eq_of_compareLex (over_canonical overFirst) (over_canonical overSecond)
      (Std.OrientedCmp.isLE_antisymm (canonical_isLE_of_renames overFirst reverse)
        (canonical_isLE_of_renames overSecond whole))
  calc
    c.canonical = (ofLiterals symbols first).canonical := sameFirst
    _ = (ofLiterals symbols second).canonical := forms
    _ = d.canonical := sameSecond.symm

/-- What a unifier makes of the literals that a clash leaves is over the table. -/
theorem over_survivors {clash : Clash} {m : Bindings} (left : c.Formed symbols) (right : d.Formed symbols)
    (inside : clash ∈ c.clashes d) (unified : Bindings.empty.unify clash.left.atom clash.right.atom = some m) :
    ∀ l ∈ (clash.leftRest ++ clash.rightRest).map (Literal.subst m.image), l.Over symbols := by
  obtain ⟨pickedLeft, pickedRight, -⟩ := mem_clashes_iff.mp inside
  have inLeft : ∀ l ∈ clash.left :: clash.leftRest, l.Over symbols := fun l member =>
    left.over_literals l ((perm_of_mem_picks pickedLeft).subset member)
  have inRight : ∀ l ∈ clash.right :: clash.rightRest, l.Over symbols := fun l member =>
    right.over_literals l ((perm_of_mem_picks pickedRight).subset member)
  have images := Bindings.image_over_of_unify unified (inLeft _ List.mem_cons_self)
    (inRight _ List.mem_cons_self)
  intro l member
  obtain ⟨k, listed, rfl⟩ := List.mem_map.mp member
  apply Literal.over_subst images
  rcases List.mem_append.mp listed with fromLeft | fromRight
  · exact inLeft k (List.mem_cons_of_mem _ fromLeft)
  · exact inRight k (List.mem_cons_of_mem _ fromRight)

/-- What a clash of formed clauses leaves is formed. -/
theorem resolvent {clash : Clash} (inside : clash ∈ c.clashes d)
    (found : clash.resolvent? symbols = some r) (left : c.Formed symbols) (right : d.Formed symbols) :
    r.Formed symbols := by
  obtain ⟨-, m, unified, rfl⟩ := Clash.resolvent?_eq_some_iff.mp found
  exact formed_ofLiterals (left.over_survivors right inside unified)

end Formed

theorem formed_of_mem_resolve (c d : Clause) (supply : Supply) (left : c.Formed symbols)
    (right : d.Formed symbols) (r : Clause) (member : r ∈ (c.resolve symbols d supply).1) :
    r.Formed symbols := by
  obtain ⟨clash, inside, bare, before, found, rfl⟩ := exists_clash_of_mem_resolve member
  exact (Formed.resolvent inside found left right).rename before

end Clause

namespace Problem

/-- Whether every clause of a problem is formed over its symbol table. -/
def Formed (p : Problem) : Prop := ∀ c ∈ p.clauses, c.Formed p.symbols

theorem Formed.search {p : Problem} {query : Literal} (formed : p.Formed) (inTable : query.Over p.symbols) :
    ∀ c ∈ (p.search query).clauses, c.Formed p.symbols := by
  intro c member
  obtain ⟨bare, listed, before, rfl⟩ := Clause.exists_of_mem_renameAll (mem_search member)
  rcases List.mem_cons.mp listed with rfl | inside
  · refine (Clause.formed_ofLiterals fun l member => ?_).rename before
    rw [List.mem_singleton] at member
    rw [member]
    exact inTable
  · exact (formed bare inside).rename before

end Problem

end Refutation
