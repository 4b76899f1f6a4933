import Refutation.Source.Line
import Refutation.Text.Blank
import Refutation.Text.Digits

/-!
Reading a problem: the number of queries, one query per line, the number of sentences, one sentence
per line, and nothing more. Blank lines are passed over everywhere, but they count when a line is
named by its number.
-/

namespace Refutation

namespace Source

/-- The lines of a text without their ends. There is always one more than there are line ends. -/
def splitLines : List Char → List (List Char)
  | [] => [[]]
  | '\n' :: rest => [] :: splitLines rest
  | c :: rest =>
      match splitLines rest with
      | [] => [[c]]
      | line :: lines => (c :: line) :: lines

/-- A line that is not blank, with its number. -/
structure NumberedLine where
  number : Nat
  chars : List Char

def trim (chars : List Char) : List Char :=
  ((chars.dropWhile Text.isBlank).reverse.dropWhile Text.isBlank).reverse

/-- The lines that are not blank. The first line of the text has number one. -/
def linesOf (text : String) : List NumberedLine :=
  ((splitLines text.toList).mapIdx fun i line => ⟨i + 1, line⟩).filter fun line =>
    !line.chars.all Text.isBlank

/-- A count is decimal digits, at least one, after an optional plus sign, of value below `2 ^ 64`. -/
def count? (chars : List Char) : Option Nat :=
  let digits := match chars with
    | '+' :: digits => digits
    | digits => digits
  let value := Text.digitsValue digits
  if digits ≠ [] ∧ digits.all Char.isDigit ∧ value < Nat.pow 2 64 then some value else none

end Source

/-- Why a problem cannot be read. -/
inductive InputError where
  /-- The text itself could not be had. -/
  | unreadable (cause : String)
  | missingCount (kind : Source.Kind)
  | badCount (kind : Source.Kind) (line : Nat) (text : String)
  | missingLines (kind : Source.Kind) (expected found : Nat)
  | malformed (line : Nat) (mismatch : Source.Mismatch)
  /-- A query that is not a single literal. -/
  | notOneLiteral (line : Nat)
  | trailing (line : Nat)

def Source.Kind.name : Source.Kind → String
  | .query => "query"
  | .sentence => "sentence"

def InputError.message : InputError → String
  | .unreadable cause => s!"failed to read input: {cause}"
  | .missingCount kind => s!"missing {kind.name} count"
  | .badCount kind line text => s!"line {line}: expected a {kind.name} count, found '{text}'"
  | .missingLines kind expected found => s!"expected {expected} {kind.name} lines, found {found}"
  | .malformed line mismatch => s!"line {line}: {mismatch.message}"
  | .notOneLiteral line => s!"line {line}: a query is a single literal"
  | .trailing line => s!"line {line}: unexpected trailing input"

namespace Source

/-- Takes a count and as many lines as it says; the second part is what follows them. -/
def takeSection (kind : Kind) :
    List NumberedLine → Except InputError (List NumberedLine × List NumberedLine)
  | [] => .error (.missingCount kind)
  | line :: rest =>
      match count? (trim line.chars) with
      | none => .error (.badCount kind line.number (String.ofList (trim line.chars)))
      | some expected =>
          if rest.length < expected then .error (.missingLines kind expected rest.length)
          else .ok (rest.take expected, rest.drop expected)

/-- Reads a line into the problem under construction. -/
def readInto (kind : Kind) (b : Builder) (line : NumberedLine) : Except InputError Builder :=
  match readLine kind (line.chars.filter fun c => !Text.isBlank c) with
  | .error mismatch => .error (.malformed line.number mismatch)
  | .ok literals =>
      let b := literals.foldl Builder.addPhrase b
      match kind with
      | .sentence => .ok b.clause
      | .query =>
          match b.query? with
          | some b => .ok b
          | none => .error (.notOneLiteral line.number)

def readLines (kind : Kind) : Builder → List NumberedLine → Except InputError Builder
  | b, [] => .ok b
  | b, line :: rest =>
      match readInto kind b line with
      | .ok b => readLines kind b rest
      | .error error => .error error

end Source

open Source in
/-- Reads a problem from its text. -/
def Problem.ofText (text : String) : Except InputError Problem := do
  let (queries, rest) ← takeSection .query (linesOf text)
  let b ← readLines .query .empty queries
  let (sentences, rest) ← takeSection .sentence rest
  let b ← readLines .sentence b sentences
  match rest with
  | [] => .ok b.finish
  | line :: _ => .error (.trailing line.number)

end Refutation
