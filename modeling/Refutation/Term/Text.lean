import Refutation.Term.Basic

/-!
The text of a term: a variable is `x` and its number, a constant its name, and an application its
function's name with the arguments in parentheses, separated by commas without blanks.
-/

namespace Refutation.Term

mutual

def chars (symbols : Symbols) : Term → List Char
  | .const c => (symbols.name c).toList
  | .var x => 'x' :: Nat.toDigits 10 x
  | .app f args => (symbols.name f).toList ++ '(' :: charsAll symbols args ++ [')']

/-- The texts of the terms with commas between them. -/
def charsAll (symbols : Symbols) : List Term → List Char
  | [] => []
  | [t] => chars symbols t
  | t :: ts => chars symbols t ++ ',' :: charsAll symbols ts

end

def text (symbols : Symbols) (t : Term) : String := String.ofList (t.chars symbols)

end Refutation.Term
