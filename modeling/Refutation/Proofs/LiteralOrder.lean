import Mathlib.Data.List.Basic
import Refutation.Literal

/-!
The orders of terms and literals are total preorders, and two literals of one symbol table compare as
equal exactly if they are the same up to what the order does not see of their variables.

Comparisons are lexicographic, so they are studied three at a time: `Composes` says that the
comparisons of `a` with `b`, of `b` with `c` and of `a` with `c` can come from a total preorder, and
`Composes.compose` that this survives lexicographic composition.
-/

namespace Refutation

/-- Three comparisons, the last of them across the other two, agree with some total preorder. -/
structure Composes (first second whole : Ordering) : Prop where
  left_tie : first = .eq → whole = second
  right_tie : second = .eq → whole = first
  less : first = .lt → second = .lt → whole = .lt
  greater : first = .gt → second = .gt → whole = .gt

namespace Composes

theorem of_transCmp {α : Type} (cmp : α → α → Ordering) [Std.TransCmp cmp] (a b c : α) :
    Composes (cmp a b) (cmp b c) (cmp a c) where
  left_tie tie := Std.TransCmp.congr_left tie
  right_tie tie := (Std.TransCmp.congr_right tie).symm
  less := Std.TransCmp.lt_trans
  greater := Std.TransCmp.gt_trans

/-- The later comparisons matter only where both earlier ones are ties. -/
theorem compose {f₁ s₁ w₁ f₂ s₂ w₂ : Ordering} (earlier : Composes f₁ s₁ w₁)
    (later : f₁ = .eq → s₁ = .eq → Composes f₂ s₂ w₂) :
    Composes (f₁.then f₂) (s₁.then s₂) (w₁.then w₂) := by
  cases f₁ with
  | eq =>
      rw [earlier.left_tie rfl]
      cases s₁ with
      | eq => exact later rfl rfl
      | lt => constructor <;> simp
      | gt => constructor <;> simp
  | lt =>
      cases s₁ with
      | eq =>
          rw [earlier.right_tie rfl]
          constructor <;> simp
      | lt =>
          rw [earlier.less rfl rfl]
          constructor <;> simp
      | gt => constructor <;> simp
  | gt =>
      cases s₁ with
      | eq =>
          rw [earlier.right_tie rfl]
          constructor <;> simp
      | lt => constructor <;> simp
      | gt =>
          rw [earlier.greater rfl rfl]
          constructor <;> simp

theorem isLE {first second whole : Ordering} (composes : Composes first second whole)
    (left : first.isLE) (right : second.isLE) : whole.isLE := by
  cases first with
  | eq => rwa [composes.left_tie rfl]
  | lt =>
      cases second with
      | eq => rwa [composes.right_tie rfl]
      | lt => rw [composes.less rfl rfl]; rfl
      | gt => simp at right
  | gt => simp at left

end Composes

namespace Term

section Laws

variable (symbols : Symbols) (onVars : VarId → VarId → Ordering)

theorem compareArgs_swap {ss : List Term}
    (each : ∀ s ∈ ss, ∀ t, s.compareWith symbols onVars t = (t.compareWith symbols onVars s).swap)
    (ts : List Term) : compareArgs symbols onVars ss ts = (compareArgs symbols onVars ts ss).swap := by
  induction ss generalizing ts with
  | nil => cases ts <;> simp [compareArgs]
  | cons s ss ih =>
      cases ts with
      | nil => simp [compareArgs]
      | cons t ts =>
          have tail := ih (fun s member => each s (List.mem_cons_of_mem _ member)) ts
          rw [compareArgs, compareArgs, Ordering.swap_then, ← tail, ← each s List.mem_cons_self]

theorem compareWith_swap [Std.OrientedCmp onVars] (s t : Term) :
    s.compareWith symbols onVars t = (t.compareWith symbols onVars s).swap := by
  induction s using Term.induct generalizing t with
  | const c =>
      cases t with
      | const d => simpa [compareWith] using Std.OrientedCmp.eq_swap
      | var y => simp [compareWith]
      | app g ts => simp [compareWith]
  | var x =>
      cases t with
      | const d => simp [compareWith]
      | var y => simpa [compareWith] using Std.OrientedCmp.eq_swap
      | app g ts => simp [compareWith]
  | app f ss ih =>
      cases t with
      | const d => simp [compareWith]
      | var y => simp [compareWith]
      | app g ts =>
          have args := compareArgs_swap symbols onVars ih ts
          have names : compare (symbols.name f) (symbols.name g) =
              (compare (symbols.name g) (symbols.name f)).swap := Std.OrientedCmp.eq_swap
          have lengths : compare ss.length ts.length = (compare ts.length ss.length).swap :=
            Std.OrientedCmp.eq_swap
          rw [compareWith, compareWith, Ordering.swap_then, Ordering.swap_then, ← args, ← names, ← lengths]

theorem compareArgs_composes {ss : List Term}
    (each : ∀ s ∈ ss, ∀ t u, Composes (s.compareWith symbols onVars t) (t.compareWith symbols onVars u)
      (s.compareWith symbols onVars u)) (ts us : List Term) (first : ss.length = ts.length)
    (second : ts.length = us.length) :
    Composes (compareArgs symbols onVars ss ts) (compareArgs symbols onVars ts us)
      (compareArgs symbols onVars ss us) := by
  induction ss generalizing ts us with
  | nil =>
      obtain rfl : ts = [] := List.length_eq_zero_iff.mp first.symm
      constructor <;> simp [compareArgs]
  | cons s ss ih =>
      cases ts with
      | nil => simp at first
      | cons t ts =>
          cases us with
          | nil => simp at second
          | cons u us =>
              have tail := ih (fun s member => each s (List.mem_cons_of_mem _ member)) ts us
                (by simpa using first) (by simpa using second)
              rw [compareArgs, compareArgs, compareArgs]
              exact (each s List.mem_cons_self t u).compose fun _ _ => tail

theorem compareWith_composes [Std.TransCmp onVars] (s t u : Term) :
    Composes (s.compareWith symbols onVars t) (t.compareWith symbols onVars u)
      (s.compareWith symbols onVars u) := by
  induction s using Term.induct generalizing t u with
  | const c =>
      cases t with
      | const d =>
          cases u with
          | const e =>
              simp only [compareWith]
              exact .of_transCmp compare _ _ _
          | var z => constructor <;> simp [compareWith]
          | app h us => constructor <;> simp [compareWith]
      | var y => cases u <;> constructor <;> simp [compareWith]
      | app g ts => cases u <;> constructor <;> simp [compareWith]
  | var x =>
      cases t with
      | const d => cases u <;> constructor <;> simp [compareWith]
      | var y =>
          cases u with
          | const e => constructor <;> simp [compareWith]
          | var z =>
              simp only [compareWith]
              exact .of_transCmp onVars _ _ _
          | app h us => constructor <;> simp [compareWith]
      | app g ts => cases u <;> constructor <;> simp [compareWith]
  | app f ss ih =>
      cases t with
      | const d => cases u <;> constructor <;> simp [compareWith]
      | var y => cases u <;> constructor <;> simp [compareWith]
      | app g ts =>
          cases u with
          | const e => constructor <;> simp [compareWith]
          | var z => constructor <;> simp [compareWith]
          | app h us =>
              rw [compareWith, compareWith, compareWith]
              refine (Composes.of_transCmp compare _ _ _).compose fun _ _ => ?_
              refine (Composes.of_transCmp compare _ _ _).compose fun first second => ?_
              exact compareArgs_composes symbols onVars ih ts us (Nat.compare_eq_eq.mp first)
                (Nat.compare_eq_eq.mp second)

end Laws

theorem compareArgs_rename {symbols : Symbols} {onVars : VarId → VarId → Ordering} {ρ σ : VarId → VarId}
    {ss : List Term} (each : ∀ s ∈ ss, ∀ t, (s.rename ρ).compareWith symbols onVars (t.rename σ) =
      s.compareWith symbols (fun x y => onVars (ρ x) (σ y)) t) (ts : List Term) :
    compareArgs symbols onVars (ss.map (rename ρ)) (ts.map (rename σ)) =
      compareArgs symbols (fun x y => onVars (ρ x) (σ y)) ss ts := by
  induction ss generalizing ts with
  | nil => simp [compareArgs]
  | cons s ss ih =>
      cases ts with
      | nil => simp [compareArgs]
      | cons t ts =>
          have tail := ih (fun s member => each s (List.mem_cons_of_mem _ member)) ts
          rw [List.map_cons, List.map_cons, compareArgs, compareArgs, tail, each s List.mem_cons_self]

/-- Renaming the variables of both sides changes only how variables are compared. -/
theorem compareWith_rename (symbols : Symbols) (onVars : VarId → VarId → Ordering) (ρ σ : VarId → VarId)
    (s t : Term) : (s.rename ρ).compareWith symbols onVars (t.rename σ) =
      s.compareWith symbols (fun x y => onVars (ρ x) (σ y)) t := by
  induction s using Term.induct generalizing t with
  | const c => cases t <;> simp [compareWith]
  | var x => cases t <;> simp [compareWith]
  | app f ss ih =>
      cases t with
      | const d => simp [compareWith]
      | var y => simp [compareWith]
      | app g ts =>
          simp only [rename_app, compareWith, List.length_map, compareArgs_rename ih]

mutual

/-- The symbols of a term from left to right, with repetitions. -/
def symbols : Term → List SymbolId
  | .const c => [c]
  | .var _ => []
  | .app f args => f :: symbolsAll args

def symbolsAll : List Term → List SymbolId
  | [] => []
  | t :: ts => symbols t ++ symbolsAll ts

end

theorem symbolsAll_eq_flatMap (ts : List Term) : symbolsAll ts = ts.flatMap symbols := by
  induction ts with
  | nil => rfl
  | cons t ts ih => rw [symbolsAll, ih, List.flatMap_cons]

/-- Every symbol of the term is in the table. -/
def Over (table : Symbols) (t : Term) : Prop := ∀ id ∈ t.symbols, id < table.size

instance (table : Symbols) (t : Term) : Decidable (t.Over table) :=
  inferInstanceAs (Decidable (∀ id ∈ t.symbols, id < table.size))

theorem over_const {table : Symbols} {c : SymbolId} : (Term.const c).Over table ↔ c < table.size := by
  simp [Over, symbols]

theorem over_app {table : Symbols} {f : SymbolId} {args : List Term} :
    (Term.app f args).Over table ↔ f < table.size ∧ ∀ t ∈ args, t.Over table := by
  simp only [Over, symbols, symbolsAll_eq_flatMap, List.forall_mem_cons, List.mem_flatMap]
  constructor
  · rintro ⟨function, inside⟩
    exact ⟨function, fun t member id used => inside id ⟨t, member, used⟩⟩
  · rintro ⟨function, inside⟩
    refine ⟨function, ?_⟩
    rintro id ⟨t, member, used⟩
    exact inside t member id used

theorem symbols_rename (ρ : VarId → VarId) (t : Term) : (t.rename ρ).symbols = t.symbols := by
  induction t using Term.induct with
  | const c => simp
  | var x => simp [symbols]
  | app f args ih =>
      rw [rename_app, symbols, symbols, symbolsAll_eq_flatMap, symbolsAll_eq_flatMap, List.flatMap_map]
      congr 1
      exact List.flatMap_congr ih

end Term

theorem Symbols.name_inj {table : Symbols} {c d : SymbolId} (first : c < table.size) (second : d < table.size)
    (same : table.name c = table.name d) : c = d := by
  have lookup : ∀ id, id < table.size → table.names.toList[id]? = some (table.name id) := by
    intro id inside
    simp [name, name?, Array.getElem?_eq_getElem inside]
  have left := lookup c first
  rw [same, ← lookup d second] at left
  exact (List.getElem?_inj (by simpa [size] using first) table.distinct).mp left

theorem Symbols.compare_name_eq_iff {table : Symbols} {c d : SymbolId} (first : c < table.size)
    (second : d < table.size) : compare (table.name c) (table.name d) = .eq ↔ c = d := by
  rw [Std.LawfulEqCmp.compare_eq_iff_eq]
  exact ⟨name_inj first second, fun same => by rw [same]⟩

namespace Term

section Ties

variable {table : Symbols} {onVars : VarId → VarId → Ordering} {ρ : VarId → VarId}

theorem compareArgs_eq_iff {ss ts : List Term} (lengths : ss.length = ts.length)
    (each : ∀ s ∈ ss, ∀ t ∈ ts, s.compareWith table onVars t = .eq ↔ s.rename ρ = t.rename ρ) :
    compareArgs table onVars ss ts = .eq ↔ ss.map (rename ρ) = ts.map (rename ρ) := by
  induction ss generalizing ts with
  | nil =>
      obtain rfl : ts = [] := List.length_eq_zero_iff.mp lengths.symm
      simp [compareArgs]
  | cons s ss ih =>
      cases ts with
      | nil => simp at lengths
      | cons t ts =>
          have tail := ih (by simpa using lengths) fun s inside t within =>
            each s (List.mem_cons_of_mem _ inside) t (List.mem_cons_of_mem _ within)
          rw [compareArgs, Ordering.then_eq_eq, tail, each s List.mem_cons_self t List.mem_cons_self,
            List.map_cons, List.map_cons, List.cons.injEq]

/-- If the order ties two variables exactly when a renaming makes them one, then it ties two terms over
the table exactly when that renaming makes them one. -/
theorem compareWith_eq_iff (ties : ∀ x y, onVars x y = .eq ↔ ρ x = ρ y) (s t : Term)
    (left : s.Over table) (right : t.Over table) :
    s.compareWith table onVars t = .eq ↔ s.rename ρ = t.rename ρ := by
  induction s using Term.induct generalizing t with
  | const c =>
      cases t with
      | const d =>
          rw [compareWith, Symbols.compare_name_eq_iff (over_const.mp left) (over_const.mp right)]
          simp
      | var y => simp [compareWith]
      | app g ts => simp [compareWith]
  | var x =>
      cases t with
      | const d => simp [compareWith]
      | var y => simp [compareWith, ties]
      | app g ts => simp [compareWith]
  | app f ss ih =>
      cases t with
      | const d => simp [compareWith]
      | var y => simp [compareWith]
      | app g ts =>
          obtain ⟨leftFunction, leftArgs⟩ := over_app.mp left
          obtain ⟨rightFunction, rightArgs⟩ := over_app.mp right
          rw [compareWith, Ordering.then_eq_eq, Ordering.then_eq_eq,
            Symbols.compare_name_eq_iff leftFunction rightFunction, Nat.compare_eq_eq, rename_app,
            rename_app, app.injEq]
          apply and_congr_right
          intro _
          constructor
          · rintro ⟨lengths, args⟩
            refine (compareArgs_eq_iff lengths ?_).mp args
            exact fun s inside t within => ih s inside t (leftArgs s inside) (rightArgs t within)
          · intro args
            have lengths : ss.length = ts.length := by simpa using congrArg List.length args
            refine ⟨lengths, (compareArgs_eq_iff lengths ?_).mpr args⟩
            exact fun s inside t within => ih s inside t (leftArgs s inside) (rightArgs t within)

end Ties

end Term

namespace Literal

section Laws

variable (symbols : Symbols) (onVars : VarId → VarId → Ordering)

instance [Std.OrientedCmp onVars] : Std.OrientedCmp (compareWith symbols onVars) where
  eq_swap {l r} := by
    have signs : Ord.compare l.positive r.positive = (Ord.compare r.positive l.positive).swap :=
      Std.OrientedCmp.eq_swap
    rw [compareWith, compareWith, Ordering.swap_then, ← signs, ← Term.compareWith_swap]

instance [Std.TransCmp onVars] : Std.TransCmp (compareWith symbols onVars) where
  isLE_trans {l r s} left right := by
    have signs := Composes.of_transCmp Ord.compare l.positive r.positive s.positive
    have atoms := Term.compareWith_composes symbols onVars l.atom r.atom s.atom
    exact (signs.compose fun _ _ => atoms).isLE left right

instance : Std.TransCmp fun _ _ : VarId => Ordering.eq where
  eq_swap := rfl
  isLE_trans _ _ := rfl

instance : Std.TransCmp (compare symbols) :=
  inferInstanceAs (Std.TransCmp (compareWith symbols fun _ _ => .eq))

instance : Std.TransCmp (compareExact symbols) :=
  inferInstanceAs (Std.TransCmp (compareWith symbols fun x y => Ord.compare x y))

end Laws

/-- Renaming the variables of either literal does not change how two literals compare. -/
@[simp] theorem compare_rename (symbols : Symbols) (ρ σ : VarId → VarId) (l r : Literal) :
    (l.rename ρ).compare symbols (r.rename σ) = l.compare symbols r := by
  rw [compare, compare, compareWith, compareWith, atom_rename, atom_rename, Term.compareWith_rename]
  rfl

def Over (table : Symbols) (l : Literal) : Prop := l.atom.Over table

instance (table : Symbols) (l : Literal) : Decidable (l.Over table) :=
  inferInstanceAs (Decidable (l.atom.Over table))

theorem over_rename {table : Symbols} {ρ : VarId → VarId} {l : Literal} :
    (l.rename ρ).Over table ↔ l.Over table := by
  rw [Over, Over, atom_rename, Term.Over, Term.Over, Term.symbols_rename]

/-- If the order ties two variables exactly when a renaming makes them one, then it ties two literals over the
table exactly when that renaming makes them one. -/
theorem compareWith_eq_iff {table : Symbols} {onVars : VarId → VarId → Ordering} {ρ : VarId → VarId}
    (ties : ∀ x y, onVars x y = .eq ↔ ρ x = ρ y) {l r : Literal} (left : l.Over table) (right : r.Over table) :
    l.compareWith table onVars r = .eq ↔ l.rename ρ = r.rename ρ := by
  rw [compareWith, Ordering.then_eq_eq, Std.LawfulEqCmp.compare_eq_iff_eq,
    Term.compareWith_eq_iff ties _ _ left right, ← atom_rename, ← atom_rename]
  constructor
  · rintro ⟨signs, atoms⟩
    exact ext_atom signs atoms
  · intro same
    have signs : (l.rename ρ).positive = (r.rename ρ).positive := congrArg positive same
    exact ⟨signs, congrArg atom same⟩

/-- The exact order ties a literal over the table with itself only. -/
theorem compareExact_eq_iff {table : Symbols} {l r : Literal} (left : l.Over table) (right : r.Over table) :
    l.compareExact table r = .eq ↔ l = r := by
  have fixed : ∀ l : Literal, l.rename id = l := fun l => l.rename_eq_self fun _ _ => rfl
  have ties : ∀ x y : VarId, Ord.compare x y = .eq ↔ id x = id y := fun x y => Nat.compare_eq_eq
  rw [compareExact, compareWith_eq_iff ties left right, fixed, fixed]

end Literal

end Refutation
