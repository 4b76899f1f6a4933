import Refutation.Text.Digits

/-!
Numbers with 53 significant binary digits. A finite one is a whole multiple of `2 ^ -1074`, and its
multiplier is below `2 ^ 2098`; reading a decimal takes the nearest one, and of two equally near the
one with an even last place.
-/

namespace Refutation

/-- The nearest whole number to a fraction; a half goes to the even neighbour. -/
def roundDiv (num den : Nat) : Nat :=
  let quotient := num / den
  let rest := 2 * (num % den)
  if den < rest ∨ (rest = den ∧ quotient % 2 = 1) then quotient + 1 else quotient

inductive Binary64 where
  | nan
  | infinite (negative : Bool)
  /-- The number `units * 2 ^ -1074`, or its opposite. -/
  | finite (negative : Bool) (units : Nat)

namespace Binary64

/-- How many units make one. -/
def one : Nat := Nat.pow 2 1074

/-- The first multiplier that is too large. -/
def bound : Nat := Nat.pow 2 2098

/-- The distance, as a power of two, between numbers of so many units. -/
def gap (units : Nat) : Nat := units.log2 - 52

/-- The nearest number to a fraction. -/
def ofRatio (negative : Bool) (num den : Nat) : Binary64 :=
  let scaled := num * one
  let place := Nat.pow 2 (gap (scaled / den))
  let units := roundDiv scaled (den * place) * place
  if units < bound then .finite negative units else .infinite negative

/-- The nearest number to `digits * 10 ^ exponent`. Far outside the range the power is not worked
out. -/
def ofDecimal (negative : Bool) (digits : Nat) (exponent : Int) : Binary64 :=
  if digits = 0 then .finite negative 0
  else
    let magnitude := exponent + (Nat.toDigits 10 digits).length
    if magnitude > 400 then .infinite negative
    else if magnitude < -400 then .finite negative 0
    else if 0 ≤ exponent then ofRatio negative (digits * Nat.pow 10 exponent.toNat) 1
    else ofRatio negative digits (Nat.pow 10 (-exponent).toNat)

/-- A sign and what follows it; a number without a sign is positive. -/
def takeSign : List Char → Bool × List Char
  | '-' :: rest => (true, rest)
  | '+' :: rest => (false, rest)
  | rest => (false, rest)

/-- The exponent at the end of a number: nothing, or `e` with at least one digit. -/
def exponent? : List Char → Option Int
  | [] => some 0
  | mark :: rest =>
      let (negative, digits) := takeSign rest
      if mark.toLower = 'e' ∧ digits ≠ [] ∧ digits.all Char.isDigit then
        let value : Int := Text.digitsValue digits
        some (if negative then -value else value)
      else none

/-- A number without its sign: digits with a point anywhere among them, at least one digit, and an
optional exponent. -/
def unsigned? (negative : Bool) (chars : List Char) : Option Binary64 :=
  let whole := chars.takeWhile Char.isDigit
  let (fraction, rest) := match chars.dropWhile Char.isDigit with
    | '.' :: rest => (rest.takeWhile Char.isDigit, rest.dropWhile Char.isDigit)
    | rest => ([], rest)
  let digits := whole ++ fraction
  if digits = [] then none
  else (exponent? rest).map fun exponent =>
      ofDecimal negative (Text.digitsValue digits) (exponent - fraction.length)

/-- Reads a number: decimal, or one of the words for infinity and for no number, in any case. -/
def read? (text : String) : Option Binary64 :=
  let (negative, chars) := takeSign text.toList
  let word := String.ofList (chars.map Char.toLower)
  if word = "inf" ∨ word = "infinity" then some (.infinite negative)
  else if word = "nan" then some .nan
  else unsigned? negative chars

end Binary64

end Refutation
