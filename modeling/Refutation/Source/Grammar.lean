import Refutation.Source.Line

/-!
The grammar of lines, as relations between characters and the phrases that they spell. Queries are
one literal, sentences are literals joined by bars.
-/

namespace Refutation.Source

/-- A name: an alphabetic character, then alphabetic characters, numbers and underscores. -/
def IsName : List Char → Prop
  | [] => False
  | c :: rest => isNameStart c ∧ ∀ d ∈ rest, isNameChar d

mutual

inductive SpellsTerm : List Char → Phrase → Prop
  | name {w : List Char} : IsName w → SpellsTerm w (.name (String.ofList w))
  | call {w u : List Char} {args : List Phrase} :
      IsName w → SpellsArgs u args → SpellsTerm (w ++ u) (.call (String.ofList w) args)

/-- Arguments with their parentheses. -/
inductive SpellsArgs : List Char → List Phrase → Prop
  | none : SpellsArgs ['(', ')'] []
  | some {u : List Char} {args : List Phrase} : SpellsTerms u args → SpellsArgs ('(' :: u ++ [')']) args

/-- Terms with commas between them, at least one. -/
inductive SpellsTerms : List Char → List Phrase → Prop
  | one {w : List Char} {t : Phrase} : SpellsTerm w t → SpellsTerms w [t]
  | more {w u : List Char} {t : Phrase} {ts : List Phrase} :
      SpellsTerm w t → SpellsTerms u ts → SpellsTerms (w ++ ',' :: u) (t :: ts)

end

inductive SpellsLiteral : List Char → LiteralPhrase → Prop
  | positive {w u : List Char} {args : List Phrase} :
      IsName w → SpellsArgs u args → SpellsLiteral (w ++ u) ⟨true, String.ofList w, args⟩
  | negative {w u : List Char} {args : List Phrase} :
      IsName w → SpellsArgs u args → SpellsLiteral ('~' :: w ++ u) ⟨false, String.ofList w, args⟩

inductive SpellsLine : Kind → List Char → List LiteralPhrase → Prop
  | one {kind : Kind} {w : List Char} {l : LiteralPhrase} : SpellsLiteral w l → SpellsLine kind w [l]
  | more {w u : List Char} {l : LiteralPhrase} {ls : List LiteralPhrase} :
      SpellsLiteral w l → SpellsLine .sentence u ls → SpellsLine .sentence (w ++ '|' :: u) (l :: ls)

end Refutation.Source
