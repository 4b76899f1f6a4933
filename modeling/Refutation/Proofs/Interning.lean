import Refutation.Proofs.Denotation

/-!
Tables that come about by entering names one after another. Such a table holds every name once, in the order in which
the names are first met, so the number of a name is its place among the different names. Further names leave it there.
-/

namespace Refutation.Symbols

/-- The table after some names were entered in turn. -/
def ofNames (names : List String) : Symbols := names.foldl (fun table name => (table.intern name).2) .empty

/-- The number of a name; a name that is not in the table has the next free number. -/
def idOf (symbols : Symbols) (name : String) : SymbolId := (symbols.intern name).1

theorem ofNames_concat (names : List String) (name : String) :
    ofNames (names ++ [name]) = ((ofNames names).intern name).2 := by
  rw [ofNames, List.foldl_append]
  rfl

theorem names_ofNames (names : List String) : (ofNames names).names.toList = names.eraseDups := by
  induction names using List.reverseRecOn with
  | nil => rfl
  | append_singleton names name ih =>
      rw [ofNames_concat]
      exact names_intern ih name

theorem name?_ofNames (names : List String) (id : SymbolId) : (ofNames names).name? id = names.eraseDups[id]? := by
  rw [← names_ofNames, Array.getElem?_toList]
  rfl

theorem extends_ofNames (names more : List String) : (ofNames (names ++ more)).Extends (ofNames names) := by
  induction more using List.reverseRecOn with
  | nil =>
      rw [List.append_nil]
      exact .refl _
  | append_singleton more name ih =>
      rw [← List.append_assoc, ofNames_concat]
      exact (extends_intern _ name).trans ih

/-- A name that is in the table is not entered again. -/
theorem idOf_of_name? {symbols : Symbols} {name : String} {id : SymbolId} (named : symbols.name? id = some name) :
    symbols.idOf name = id := by
  have grown := symbols.extends_intern name
  obtain ⟨known, old⟩ := name?_eq_some_iff.mp (grown.name?_eq_some named)
  exact name_inj (symbols.intern_lt name) known ((symbols.name_intern name).trans old.symm)

/-- The number of the last name that was entered is its place among the different names. -/
theorem idOf_ofNames_eq_iff {names : List String} {name : String} {id : SymbolId} :
    (ofNames names).idOf name = id ↔ (names ++ [name]).eraseDups[id]? = some name := by
  have last : (ofNames (names ++ [name])).name? ((ofNames names).idOf name) = some name := by
    rw [ofNames_concat]
    exact name?_intern _ name
  rw [← name?_ofNames]
  constructor
  · rintro rfl
    exact last
  · intro named
    rw [← idOf_of_name? last, idOf_of_name? named]

/-- Looking a name up by its number gives back a name that was entered. -/
theorem name?_idOf_ofNames {names : List String} {name : String} (entered : name ∈ names) :
    (ofNames names).name? ((ofNames names).idOf name) = some name := by
  obtain ⟨id, place⟩ := List.mem_iff_getElem?.mp (List.mem_eraseDups.mpr entered)
  rw [← name?_ofNames] at place
  rw [idOf_of_name? place, place]

theorem idOf_ofNames_lt {names : List String} {name : String} (entered : name ∈ names) :
    (ofNames names).idOf name < (ofNames names).size :=
  (name?_eq_some_iff.mp (name?_idOf_ofNames entered)).1

theorem idOf_ofNames_inj {names : List String} {name other : String} (entered : name ∈ names)
    (enteredOther : other ∈ names) : (ofNames names).idOf name = (ofNames names).idOf other ↔ name = other := by
  constructor
  · intro same
    have named := name?_idOf_ofNames entered
    rw [same, name?_idOf_ofNames enteredOther, Option.some.injEq] at named
    exact named.symm
  · rintro rfl
    rfl

/-- A name that was entered keeps its number. -/
theorem idOf_ofNames_append {names : List String} {name : String} (entered : name ∈ names) (more : List String) :
    (ofNames (names ++ more)).idOf name = (ofNames names).idOf name :=
  idOf_of_name? ((extends_ofNames names more).name?_eq_some (name?_idOf_ofNames entered))

theorem idOf_intern (symbols : Symbols) (name : String) : (symbols.intern name).2.idOf name = symbols.idOf name :=
  idOf_of_name? (symbols.name?_intern name)

/-- The number that a name gets is the one that it keeps. -/
theorem idOf_ofNames_append_cons (names : List String) (name : String) (more : List String) :
    (ofNames (names ++ name :: more)).idOf name = (ofNames names).idOf name := by
  have entered : name ∈ names ++ [name] := List.mem_append_right names (List.mem_singleton_self name)
  rw [List.append_cons, idOf_ofNames_append entered, ofNames_concat, idOf_intern]

end Refutation.Symbols
