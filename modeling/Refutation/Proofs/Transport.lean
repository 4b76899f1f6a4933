import Mathlib.Data.Set.Function
import Refutation.Proofs.ClauseIdentity

/-!
The same literals in another symbol table. Literals are compared by the names of their symbols, so a
renumbering of the symbols that keeps their names takes sorted literals to sorted literals and every step of
the search for the canonical arrangement to the step that is made with the other table. What a clause is made
of therefore does not depend on which table the names are in.
-/

namespace Refutation

namespace Term

variable (f g : SymbolId → SymbolId)

mutual

/-- Replaces the number of every symbol. -/
def renumber : Term → Term
  | .const c => .const (f c)
  | .var x => .var x
  | .app h args => .app (f h) (renumberAll args)

def renumberAll : List Term → List Term
  | [] => []
  | t :: ts => renumber t :: renumberAll ts

end

theorem renumberAll_eq_map (ts : List Term) : renumberAll f ts = ts.map (renumber f) := by
  induction ts with
  | nil => rfl
  | cons t ts ih => rw [renumberAll, ih, List.map_cons]

@[simp] theorem renumber_const (c : SymbolId) : (Term.const c).renumber f = .const (f c) := by rw [renumber]

@[simp] theorem renumber_var (x : VarId) : (Term.var x).renumber f = .var x := by rw [renumber]

@[simp] theorem renumber_app (h : SymbolId) (args : List Term) :
    (Term.app h args).renumber f = .app (f h) (args.map (renumber f)) := by
  rw [renumber, renumberAll_eq_map]

@[simp] theorem vars_renumber (t : Term) : (t.renumber f).vars = t.vars := by
  induction t using Term.induct with
  | const c => simp
  | var x => simp
  | app h args ih =>
      rw [renumber_app, vars_app, vars_app, List.flatMap_map, List.flatMap_def, List.flatMap_def,
        List.map_congr_left ih]

theorem renumber_subst (θ : VarId → Term) (t : Term) :
    (t.subst θ).renumber f = (t.renumber f).subst fun x => (θ x).renumber f := by
  induction t using Term.induct with
  | const c => simp
  | var x => simp
  | app h args ih =>
      simp only [subst_app, renumber_app, List.map_map]
      congr 1
      apply List.map_congr_left
      intro t member
      exact ih t member

theorem renumber_renumber (t : Term) : (t.renumber f).renumber g = t.renumber fun id => g (f id) := by
  induction t using Term.induct with
  | const c => simp
  | var x => simp
  | app h args ih =>
      simp only [renumber_app, List.map_map]
      congr 1
      apply List.map_congr_left
      intro t member
      exact ih t member

/-- Only the numbers of the symbols of a term matter. -/
theorem renumber_congr {f g : SymbolId → SymbolId} (t : Term) (agree : ∀ id ∈ t.symbols, f id = g id) :
    t.renumber f = t.renumber g := by
  induction t using Term.induct with
  | const c => simpa [symbols] using agree
  | var x => simp
  | app h args ih =>
      rw [symbols, symbolsAll_eq_flatMap, List.forall_mem_cons] at agree
      rw [renumber_app, renumber_app, agree.1]
      congr 1
      apply List.map_congr_left
      intro t member
      exact ih t member fun id used => agree.2 id (List.mem_flatMap.mpr ⟨t, member, used⟩)

theorem renumber_id (t : Term) : (t.renumber fun id => id) = t := by
  induction t using Term.induct with
  | const c => simp
  | var x => simp
  | app h args ih => rw [renumber_app, List.map_congr_left ih, List.map_id']

end Term

namespace Literal

variable (f g : SymbolId → SymbolId) (l : Literal)

def renumber : Literal := ⟨l.positive, f l.predicate, l.args.map (Term.renumber f)⟩

theorem atom_renumber : (l.renumber f).atom = l.atom.renumber f := (Term.renumber_app f _ _).symm

@[simp] theorem vars_renumber : (l.renumber f).vars = l.vars := by
  rw [vars, atom_renumber, Term.vars_renumber, vars]

theorem renumber_negate : l.negate.renumber f = (l.renumber f).negate := rfl

theorem renumber_subst (θ : VarId → Term) :
    (l.subst θ).renumber f = (l.renumber f).subst fun x => (θ x).renumber f := by
  have atoms : ((l.subst θ).renumber f).atom = ((l.renumber f).subst fun x => (θ x).renumber f).atom := by
    rw [atom_renumber, atom_subst, atom_subst, atom_renumber, Term.renumber_subst]
  exact ext_atom rfl atoms

theorem renumber_rename (ρ : VarId → VarId) : (l.rename ρ).renumber f = (l.renumber f).rename ρ := by
  rw [rename, renumber_subst, rename]
  simp only [Term.renumber_var]

theorem renumber_renumber : (l.renumber f).renumber g = l.renumber fun id => g (f id) := by
  have atoms : ((l.renumber f).renumber g).atom = (l.renumber fun id => g (f id)).atom := by
    rw [atom_renumber, atom_renumber, atom_renumber, Term.renumber_renumber]
  exact ext_atom rfl atoms

theorem renumber_congr {f g : SymbolId → SymbolId} (agree : ∀ id ∈ l.atom.symbols, f id = g id) :
    l.renumber f = l.renumber g := by
  have atoms : (l.renumber f).atom = (l.renumber g).atom := by
    rw [atom_renumber, atom_renumber, l.atom.renumber_congr agree]
  exact ext_atom rfl atoms

theorem renumber_id : (l.renumber fun id => id) = l := by
  have atoms : (l.renumber fun id => id).atom = l.atom := by rw [atom_renumber, Term.renumber_id]
  exact ext_atom rfl atoms

end Literal

section Selection

variable {α β γ δ : Type}

theorem mem_of_mem_minima {cmp : β → β → Ordering} {entries : List (β × α)} {entry : β × α}
    (member : entry ∈ minima cmp entries) : entry ∈ entries := by
  induction entries with
  | nil => exact member
  | cons first rest ih =>
      rw [minima] at member
      split at member
      · exact List.mem_cons.mpr (.inl (List.mem_singleton.mp member))
      · next least others tail =>
          rw [tail] at ih
          split at member
          · exact List.mem_cons.mpr (.inl (List.mem_singleton.mp member))
          · exact List.mem_cons.mpr ((List.mem_cons.mp member).imp_right ih)
          · exact List.mem_cons_of_mem first (ih member)

/-- Which entries have the least key depends only on how the keys compare. -/
theorem minima_map {cmp : β → β → Ordering} {cmp' : γ → γ → Ordering} (f : β → γ) (g : α → δ)
    {entries : List (β × α)}
    (same : ∀ a ∈ entries, ∀ b ∈ entries, cmp' (f a.1) (f b.1) = cmp a.1 b.1) :
    minima cmp' (entries.map (Prod.map f g)) = (minima cmp entries).map (Prod.map f g) := by
  induction entries with
  | nil => rfl
  | cons first rest ih =>
      have tail := ih fun a inside b within =>
        same a (List.mem_cons_of_mem _ inside) b (List.mem_cons_of_mem _ within)
      rw [List.map_cons, minima, minima, tail]
      cases found : minima cmp rest with
      | nil => rfl
      | cons least others =>
          have listed : least ∈ minima cmp rest := by
            rw [found]
            exact List.mem_cons_self
          have order := same first List.mem_cons_self least (List.mem_cons_of_mem _ (mem_of_mem_minima listed))
          simp only [List.map_cons, Prod.map_fst, order]
          cases cmp first.1 least.1 <;> rfl

section Distinct

variable [BEq β] [Hashable β] [LawfulBEq β] [BEq δ] [Hashable δ] [LawfulBEq δ]
variable (key : α → β) (key' : γ → δ) (g : α → γ)

private theorem go_map {met : Std.HashSet β} {met' : Std.HashSet δ} {as : List α}
    (same : ∀ a ∈ as, ∀ b ∈ as, key' (g a) = key' (g b) ↔ key a = key b)
    (alike : ∀ a ∈ as, met'.contains (key' (g a)) = met.contains (key a)) :
    distinctBy.go key' met' (as.map g) = (distinctBy.go key met as).map g := by
  induction as generalizing met met' with
  | nil => rfl
  | cons a as ih =>
      obtain ⟨first, others⟩ := List.forall_mem_cons.mp alike
      have later : ∀ b ∈ as, ∀ c ∈ as, key' (g b) = key' (g c) ↔ key b = key c := fun b inside c within =>
        same b (List.mem_cons_of_mem _ inside) c (List.mem_cons_of_mem _ within)
      rw [List.map_cons, distinctBy.go, distinctBy.go, first]
      split
      · exact ih later others
      · rw [List.map_cons]
        congr 1
        apply ih later
        intro b inside
        have here := same a List.mem_cons_self b (List.mem_cons_of_mem _ inside)
        rw [Std.HashSet.contains_insert, Std.HashSet.contains_insert, others b inside, Bool.eq_iff_iff]
        simp [here]

/-- Which elements are first of their key depends only on which keys are equal. -/
theorem distinctBy_map {as : List α} (same : ∀ a ∈ as, ∀ b ∈ as, key' (g a) = key' (g b) ↔ key a = key b) :
    distinctBy key' (as.map g) = (distinctBy key as).map g :=
  go_map key key' g same fun _ _ => by simp

end Distinct

theorem eraseDups_map [BEq α] [LawfulBEq α] [BEq β] [LawfulBEq β] {f : α → β} {as : List α}
    (injective : Set.InjOn f {a | a ∈ as}) : (as.map f).eraseDups = as.eraseDups.map f := by
  induction size : as.length using Nat.strongRecOn generalizing as with
  | ind n ih =>
      cases as with
      | nil => rfl
      | cons a as =>
          have kept : (as.map f).filter (fun b => !b == f a) = (as.filter fun b => !b == a).map f := by
            rw [List.filter_map]
            congr 1
            apply List.filter_congr
            intro b member
            have equal : f b = f a ↔ b = a :=
              injective.eq_iff (List.mem_cons_of_mem _ member) List.mem_cons_self
            rw [Function.comp_apply, Bool.eq_iff_iff]
            simp [equal]
          have shorter := List.length_filter_le (fun b => !b == a) as
          rw [List.length_cons] at size
          rw [List.map_cons, List.eraseDups_cons, List.eraseDups_cons, List.map_cons, kept]
          congr 1
          refine ih _ (by omega) (injective.mono fun b member => ?_) rfl
          exact List.mem_cons_of_mem _ (List.mem_filter.mp member).1

end Selection

section Carrying

variable (f : SymbolId → SymbolId) (symbols symbols' : Symbols)

/-- The symbols of a table that keep their names when they are renumbered for another table. -/
def carried : Set SymbolId := {id | id < symbols.size ∧ symbols'.name (f id) = symbols.name id}

/-- Whether a term has only symbols that keep their names. -/
def Term.Carried (t : Term) : Prop := ∀ id ∈ t.symbols, id ∈ carried f symbols symbols'

def Literal.Carried (l : Literal) : Prop := l.atom.Carried f symbols symbols'

variable {f symbols symbols'}

/-- Symbols that keep their names are not confused. -/
theorem injOn_carried : Set.InjOn f (carried f symbols symbols') := by
  intro c left d right same
  refine Symbols.name_inj left.1 right.1 ?_
  rw [← left.2, ← right.2, same]

namespace Term

theorem carried_app {h : SymbolId} {args : List Term} : (Term.app h args).Carried f symbols symbols' ↔
    h ∈ carried f symbols symbols' ∧ ∀ t ∈ args, t.Carried f symbols symbols' := by
  simp only [Carried, Term.symbols, symbolsAll_eq_flatMap, List.forall_mem_cons, List.mem_flatMap]
  constructor
  · rintro ⟨function, inside⟩
    exact ⟨function, fun t member id used => inside id ⟨t, member, used⟩⟩
  · rintro ⟨function, inside⟩
    refine ⟨function, ?_⟩
    rintro id ⟨t, member, used⟩
    exact inside t member id used

theorem compareArgs_renumber (onVars : VarId → VarId → Ordering) {ss ts : List Term}
    (each : ∀ s ∈ ss, ∀ t ∈ ts,
      (s.renumber f).compareWith symbols' onVars (t.renumber f) = s.compareWith symbols onVars t) :
    compareArgs symbols' onVars (ss.map (renumber f)) (ts.map (renumber f)) =
      compareArgs symbols onVars ss ts := by
  induction ss generalizing ts with
  | nil => simp [compareArgs]
  | cons s ss ih =>
      cases ts with
      | nil => simp [compareArgs]
      | cons t ts =>
          have tail := ih fun s inside t within =>
            each s (List.mem_cons_of_mem _ inside) t (List.mem_cons_of_mem _ within)
          rw [List.map_cons, List.map_cons, compareArgs, compareArgs,
            each s List.mem_cons_self t List.mem_cons_self, tail]

/-- Terms compare as they did before their symbols were renumbered. -/
theorem compareWith_renumber {onVars : VarId → VarId → Ordering} (s t : Term)
    (left : s.Carried f symbols symbols') (right : t.Carried f symbols symbols') :
    (s.renumber f).compareWith symbols' onVars (t.renumber f) = s.compareWith symbols onVars t := by
  induction s using Term.induct generalizing t with
  | const c =>
      cases t with
      | const d =>
          have first := (left c List.mem_cons_self).2
          have second := (right d List.mem_cons_self).2
          rw [renumber_const, renumber_const, compareWith, compareWith, first, second]
      | var y => simp [compareWith]
      | app h ts => simp [compareWith]
  | var x => cases t <;> simp [compareWith]
  | app h ss ih =>
      cases t with
      | const d => simp [compareWith]
      | var y => simp [compareWith]
      | app k ts =>
          obtain ⟨leftFunction, leftArgs⟩ := carried_app.mp left
          obtain ⟨rightFunction, rightArgs⟩ := carried_app.mp right
          have args := compareArgs_renumber onVars fun s inside t within =>
            ih s inside t (leftArgs s inside) (rightArgs t within)
          rw [renumber_app, renumber_app, compareWith, compareWith, args, leftFunction.2, rightFunction.2,
            List.length_map, List.length_map]

end Term

namespace Literal

theorem Carried.rename {l : Literal} (kept : l.Carried f symbols symbols') (ρ : VarId → VarId) :
    (l.rename ρ).Carried f symbols symbols' := by
  rw [Carried, atom_rename, Term.Carried, Term.symbols_rename]
  exact kept

variable {l r : Literal} (left : l.Carried f symbols symbols') (right : r.Carried f symbols symbols')
include left right

theorem compareWith_renumber (onVars : VarId → VarId → Ordering) :
    (l.renumber f).compareWith symbols' onVars (r.renumber f) = l.compareWith symbols onVars r := by
  rw [compareWith, compareWith, atom_renumber, atom_renumber, Term.compareWith_renumber _ _ left right]
  rfl

theorem compare_renumber : (l.renumber f).compare symbols' (r.renumber f) = l.compare symbols r :=
  compareWith_renumber left right _

theorem compareExact_renumber :
    (l.renumber f).compareExact symbols' (r.renumber f) = l.compareExact symbols r :=
  compareWith_renumber left right _

end Literal

/-- Symbols that kept their names can be given their old numbers back. -/
theorem Literal.renumber_undo {l : Literal} (kept : l.Carried f symbols symbols') :
    (l.renumber f).renumber (Function.invFunOn f (carried f symbols symbols')) = l := by
  rw [renumber_renumber, l.renumber_congr (g := fun id => id), renumber_id]
  exact fun id used => injOn_carried.leftInvOn_invFunOn (kept id used)

theorem Literal.map_renumber_inj {first second : List Literal} (left : ∀ l ∈ first, l.Carried f symbols symbols')
    (right : ∀ l ∈ second, l.Carried f symbols symbols') :
    first.map (Literal.renumber f) = second.map (Literal.renumber f) ↔ first = second := by
  have undo : ∀ {literals : List Literal}, (∀ l ∈ literals, l.Carried f symbols symbols') →
      (literals.map (Literal.renumber f)).map
        (Literal.renumber (Function.invFunOn f (carried f symbols symbols'))) = literals := by
    intro literals kept
    rw [List.map_map, List.map_congr_left (g := id), List.map_id]
    exact fun l member => renumber_undo (kept l member)
  refine ⟨fun same => ?_, fun same => by rw [same]⟩
  rw [← undo left, ← undo right, same]

end Carrying

section Arrangements

variable (f : SymbolId → SymbolId)

theorem flatMap_vars_renumber (literals : List Literal) :
    (literals.map (Literal.renumber f)).flatMap Literal.vars = literals.flatMap Literal.vars := by
  rw [List.flatMap_map]
  exact List.flatMap_congr fun l _ => l.vars_renumber f

theorem standardForm_map_renumber (literals : List Literal) :
    standardForm (literals.map (Literal.renumber f)) = (standardForm literals).map (Literal.renumber f) := by
  rw [standardForm, standardForm, flatMap_vars_renumber, List.map_map, List.map_map]
  exact List.map_congr_left fun l _ => (l.renumber_rename f _).symm

namespace Arrangement

private theorem named_renumber (a : Arrangement) :
    a.naming = .ofList ((a.chosen.map (Literal.renumber f)).flatMap Literal.vars) := by
  rw [a.named, flatMap_vars_renumber]

private theorem standardized_renumber (a : Arrangement) :
    a.standard.map (Literal.renumber f) = standardForm (a.chosen.map (Literal.renumber f)) := by
  rw [a.standardized, standardForm_map_renumber]

/-- The arrangement of the same literals with renumbered symbols. -/
def renumber (a : Arrangement) : Arrangement :=
  ⟨a.chosen.map (Literal.renumber f), a.standard.map (Literal.renumber f), a.naming,
    a.rest.map (Literal.renumber f), named_renumber f a, standardized_renumber f a⟩

theorem place_renumber (a : Arrangement) (l : Literal) (rest : List Literal) :
    (a.renumber f).place (l.renumber f) (rest.map (Literal.renumber f)) =
      Prod.map (Literal.renumber f) (renumber f) (a.place l rest) := by
  simp [place, renumber, Literal.renumber_rename]

variable {f} {symbols symbols' : Symbols} {sorted : List Literal}

theorem successors_eq (symbols : Symbols) {a : Arrangement} {first : Literal} {tail : List Literal}
    (rests : a.rest = first :: tail) : a.successors symbols =
      ((picks a.rest).filter fun p => p.1.compare symbols first == .eq).map fun p => a.place p.1 p.2 := by
  unfold successors
  split
  · next none =>
      rw [none] at rests
      cases rests
  · next other _ some =>
      rw [some] at rests
      cases rests
      rfl

theorem successors_renumber {a : Arrangement} (kept : ∀ l ∈ a.rest, l.Carried f symbols symbols') :
    (a.renumber f).successors symbols' =
      (a.successors symbols).map (Prod.map (Literal.renumber f) (renumber f)) := by
  cases rests : a.rest with
  | nil => simp [successors, renumber, rests]
  | cons first tail =>
      have image : (a.renumber f).rest = first.renumber f :: tail.map (Literal.renumber f) := by
        rw [← List.map_cons, ← rests]
        rfl
      have picked : picks (a.renumber f).rest =
          (picks a.rest).map fun p => (p.1.renumber f, p.2.map (Literal.renumber f)) := picks_map _ _
      rw [successors_eq symbols rests, successors_eq symbols' image, picked, List.filter_map, List.map_map,
        List.map_map]
      have ties : ∀ p ∈ picks a.rest,
          ((p.1.renumber f).compare symbols' (first.renumber f) == .eq) = (p.1.compare symbols first == .eq) := by
        intro p member
        have inside : p.1 ∈ a.rest := (perm_of_mem_picks member).subset List.mem_cons_self
        rw [Literal.compare_renumber (kept p.1 inside) (kept first (by simp [rests]))]
      rw [← List.filter_congr ties]
      exact List.map_congr_left fun p _ => place_renumber f a p.1 p.2

theorem key_renumber (a : Arrangement) :
    (a.renumber f).key = (a.key.1.map (Literal.renumber f), a.key.2) := by
  simp only [key, renumber, flatMap_vars_renumber]

section Search

variable (kept : ∀ l ∈ sorted, l.Carried f symbols symbols')
include kept

theorem carried_of_mem_successors {n : Nat} {a b : Arrangement} {standard : Literal}
    (reached : Reached symbols sorted n a) (successor : (standard, b) ∈ a.successors symbols) :
    standard.Carried f symbols symbols' := by
  obtain ⟨_, _, l, rest, -, picked, -, rfl, rfl⟩ := mem_successors_iff.mp successor
  have member : l ∈ a.rest := (perm_of_mem_picks picked).subset List.mem_cons_self
  exact (kept l (reached.mem member)).rename _

/-- One more literal finds its place the same way after symbols were renumbered. -/
theorem extend_renumber {n : Nat} {arrangements : List Arrangement}
    (reached : ∀ a ∈ arrangements, Reached symbols sorted n a) :
    extend symbols' (arrangements.map (renumber f)) = (extend symbols arrangements).map (renumber f) := by
  have next : (arrangements.map (renumber f)).flatMap (successors symbols') =
      (arrangements.flatMap (successors symbols)).map (Prod.map (Literal.renumber f) (renumber f)) := by
    rw [List.flatMap_map, List.map_flatMap]
    exact List.flatMap_congr fun a member =>
      successors_renumber fun l inside => kept l ((reached a member).mem inside)
  have order : ∀ s ∈ arrangements.flatMap (successors symbols), ∀ t ∈ arrangements.flatMap (successors symbols),
      (s.1.renumber f).compareExact symbols' (t.1.renumber f) = s.1.compareExact symbols t.1 := by
    intro s left t right
    obtain ⟨a, inA, nextA⟩ := List.mem_flatMap.mp left
    obtain ⟨b, inB, nextB⟩ := List.mem_flatMap.mp right
    exact Literal.compareExact_renumber (carried_of_mem_successors kept (reached a inA) nextA)
      (carried_of_mem_successors kept (reached b inB) nextB)
  have keys : ∀ b ∈ (minima (Literal.compareExact symbols) (arrangements.flatMap (successors symbols))).map Prod.snd,
      ∀ l ∈ b.rest, l.Carried f symbols symbols' := by
    intro b member l waiting
    obtain ⟨⟨standard, c⟩, least, rfl⟩ := List.mem_map.mp member
    obtain ⟨a, inside, successor⟩ := List.mem_flatMap.mp (mem_of_mem_minima least)
    exact kept l (((reached a inside).place successor).mem waiting)
  rw [extend, next, minima_map _ _ order, extend, ← distinctBy_map key key (renumber f), List.map_map, List.map_map]
  · rfl
  · intro a left b right
    rw [key_renumber, key_renumber, Prod.ext_iff, Prod.ext_iff]
    exact and_congr_left' (Literal.map_renumber_inj (keys a left) (keys b right))

/-- The search goes the same way after symbols were renumbered. -/
theorem frontier_renumber (n : Nat) :
    frontier symbols' (sorted.map (Literal.renumber f)) n = (frontier symbols sorted n).map (renumber f) := by
  induction n with
  | zero => rfl
  | succ n ih =>
      rw [frontier, ih, frontier]
      exact extend_renumber kept fun a member => reached_of_mem_frontier member

theorem best_renumber :
    best symbols' (sorted.map (Literal.renumber f)) = (best symbols sorted).renumber f := by
  rw [best, best, List.length_map, frontier_renumber kept, List.getLast?_map]
  cases (frontier symbols sorted sorted.length).getLast? <;> rfl

end Search

end Arrangement

namespace Clause

/-- A clause is determined by its literals in their order. -/
theorem ext_literals {c d : Clause} (same : c.literals = d.literals) : c = d := by
  obtain ⟨literals, split, canonical, divided, standard⟩ := c
  obtain ⟨literals', split', canonical', divided', standard'⟩ := d
  obtain rfl : literals = literals' := same
  subst divided divided' standard standard'
  rfl

variable {f} {symbols symbols' : Symbols} {literals : List Literal}

/-- The clause of some literals in another table, where their symbols have other numbers. -/
theorem literals_ofLiterals_renumber (kept : ∀ l ∈ literals, l.Carried f symbols symbols') :
    (ofLiterals symbols' (literals.map (Literal.renumber f))).literals =
      (ofLiterals symbols literals).literals.map (Literal.renumber f) := by
  have keptDistinct : ∀ l ∈ literals.eraseDups, l.Carried f symbols symbols' := fun l member =>
    kept l (List.mem_eraseDups.mp member)
  have keptSorted : ∀ l ∈ sortedLiterals symbols literals, l.Carried f symbols symbols' := fun l member =>
    keptDistinct l (List.mem_mergeSort.mp member)
  have distinct : (literals.map (Literal.renumber f)).eraseDups =
      literals.eraseDups.map (Literal.renumber f) := by
    apply eraseDups_map
    intro l left r right same
    rw [← Literal.renumber_undo (kept l left), ← Literal.renumber_undo (kept r right), same]
  have sorted : sortedLiterals symbols' (literals.map (Literal.renumber f)) =
      (sortedLiterals symbols literals).map (Literal.renumber f) := by
    rw [sortedLiterals, distinct, List.map_mergeSort]
    intro l left r right
    rw [Literal.compare_renumber (keptDistinct l left) (keptDistinct r right)]
  show (Arrangement.best symbols' (sortedLiterals symbols' _)).chosen = _
  rw [sorted, Arrangement.best_renumber keptSorted]
  rfl

end Clause

end Arrangements

end Refutation
