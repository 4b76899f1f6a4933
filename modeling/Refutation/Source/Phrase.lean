import Refutation.Problem.Builder
import Refutation.Text.Alphabetic
import Refutation.Text.Numeric
import Refutation.Text.Uppercase

/-!
Phrases: literals and their arguments as they are written, before names are looked up. A name begins
with an alphabetic character and goes on with alphabetic characters, numbers and underscores.

A name that stands alone as an argument denotes a constant if it begins with an upper-case character
and a variable otherwise; a name with arguments denotes a function.
-/

namespace Refutation.Source

def isNameStart (c : Char) : Bool := Text.isAlphabetic c

def isNameChar (c : Char) : Bool := Text.isAlphabetic c || Text.isNumeric c || c == '_'

inductive Phrase where
  | name (text : String)
  | call (function : String) (args : List Phrase)

structure LiteralPhrase where
  positive : Bool
  predicate : String
  args : List Phrase

/-- Whether a name that stands alone denotes a constant. -/
def isConstantName (name : String) : Bool := (name.toList.head?.map Text.isUppercase).getD false

end Refutation.Source

namespace Refutation.Builder

open Source

mutual

/-- The term that a phrase denotes; arguments are looked up before the function that takes them. -/
def denote (b : Builder) : Phrase → Term × Builder
  | .name text => if isConstantName text then b.const text else b.var text
  | .call function args =>
      let (terms, b) := denoteAll b args
      b.app function terms

def denoteAll (b : Builder) : List Phrase → List Term × Builder
  | [] => ([], b)
  | phrase :: phrases =>
      let (term, b) := denote b phrase
      let (terms, b) := denoteAll b phrases
      (term :: terms, b)

end

/-- Adds the literal that a phrase denotes to those at hand. -/
def addPhrase (b : Builder) (phrase : LiteralPhrase) : Builder :=
  let (terms, b) := b.denoteAll phrase.args
  b.literal phrase.positive phrase.predicate terms

end Refutation.Builder
