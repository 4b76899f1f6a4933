import Refutation.Number.Binary64

/-!
The text of a number: the fewest decimal digits that read back as the number, written without an
exponent. Of several decimals with that many digits the nearest is taken, and of two equally near
the larger.
-/

namespace Refutation.Binary64

/-- The power of ten as a fraction. -/
def tenPower (exponent : Int) : Nat × Nat :=
  if 0 ≤ exponent then (Nat.pow 10 exponent.toNat, 1) else (1, Nat.pow 10 (-exponent).toNat)

def digitCount (n : Nat) : Nat := (Nat.toDigits 10 n).length

/-- Where the decimal point stands: a positive number is below this power of ten and not below the
one before it. -/
def pointPlace (units : Nat) : Int :=
  if one ≤ units then digitCount (units / one)
  else
    let zeros := digitCount (one / units)
    if one ≤ units * Nat.pow 10 (zeros - 1) then 2 - (zeros : Int) else 1 - (zeros : Int)

/-- Whether the decimal `digits * 10 ^ exponent` reads back as the positive number of so many
units. -/
def readsBack (units : Nat) (digits : Nat) (exponent : Int) : Bool :=
  let (num, den) := tenPower exponent
  let place := Nat.pow 2 (gap units)
  let below := if units = Nat.pow 2 52 * place ∧ 1 < place then place else 2 * place
  let value := digits * num * 4 * one
  let low := (4 * units - below) * den
  let high := (4 * units + 2 * place) * den
  if units / place % 2 = 0 then decide (low ≤ value) && decide (value ≤ high)
  else decide (low < value) && decide (value < high)

/-- The decimal with at most so many digits that reads back and is nearest. -/
def decimal? (units count : Nat) : Option (Nat × Int) :=
  let exponent := pointPlace units - count
  let (num, den) := tenPower exponent
  let lower := units * den / (one * num)
  let upper := lower + 1
  let nearLower := decide (units * den - lower * num * one < upper * num * one - units * den)
  match readsBack units lower exponent, readsBack units upper exponent with
  | true, true => some (if nearLower then lower else upper, exponent)
  | true, false => some (lower, exponent)
  | false, true => some (upper, exponent)
  | false, false => none

/-- Digits and exponent of the shortest decimal for a positive number; seventeen digits are always
enough. -/
def shortest (units : Nat) : Nat × Int :=
  ((List.range 17).findSome? fun i => decimal? units (i + 1)).getD (units, -1074)

/-- Writes `digits * 10 ^ exponent` without an exponent and without idle zeros. -/
def positional (digits : Nat) (exponent : Int) : String :=
  let all := Nat.toDigits 10 digits
  let kept := (all.reverse.dropWhile (· = '0')).reverse
  let point := exponent + all.length
  let text :=
    if point ≤ 0 then '0' :: '.' :: (List.replicate (-point).toNat '0' ++ kept)
    else if kept.length ≤ point.toNat then kept ++ List.replicate (point.toNat - kept.length) '0'
    else kept.take point.toNat ++ '.' :: kept.drop point.toNat
  String.ofList text

def text : Binary64 → String
  | .nan => "NaN"
  | .infinite negative => if negative then "-inf" else "inf"
  | .finite negative units =>
      let magnitude :=
        if units = 0 then "0"
        else
          let (digits, exponent) := shortest units
          positional digits exponent
      (if negative then "-" else "") ++ magnitude

end Refutation.Binary64
