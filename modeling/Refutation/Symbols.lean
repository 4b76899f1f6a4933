/-!
Symbol tables. A table numbers the names of constants, functions and predicates in the order in
which they are first met, so that terms carry small numbers and only printing and ordering look a
name up again. No table holds a name twice.
-/

namespace Refutation

/-- A constant, function or predicate symbol: its position in a symbol table. -/
abbrev SymbolId := Nat

structure Symbols where
  names : Array String
  distinct : names.toList.Nodup

namespace Symbols

def empty : Symbols := ⟨#[], List.nodup_nil⟩

def size (symbols : Symbols) : Nat := symbols.names.size

def name? (symbols : Symbols) (id : SymbolId) : Option String := symbols.names[id]?

/-- The name of a symbol of the table; a number outside the table has the empty name. -/
def name (symbols : Symbols) (id : SymbolId) : String := (symbols.name? id).getD ""

private theorem push_distinct {names : Array String} {name : String} (distinct : names.toList.Nodup)
    (absent : names.idxOf? name = none) : (names.push name).toList.Nodup := by
  have fresh : name ∉ names := Array.idxOf?_eq_none_iff.mp absent
  rw [Array.toList_push, List.nodup_append]
  refine ⟨distinct, by simp, ?_⟩
  intro known member other isName same
  rw [List.mem_singleton] at isName
  subst isName same
  exact fresh (Array.mem_toList_iff.mp member)

/-- The symbol of a name, entered at the end of the table if it was not known. -/
def intern (symbols : Symbols) (name : String) : SymbolId × Symbols :=
  match found : symbols.names.idxOf? name with
  | some id => (id, symbols)
  | none => (symbols.size, ⟨symbols.names.push name, push_distinct symbols.distinct found⟩)

end Symbols

end Refutation
