/-! Decimal digits and their value. -/

namespace Refutation.Text

/-- The value of decimal digits, the first one counting most. -/
def digitsValue (digits : List Char) : Nat :=
  digits.foldl (fun value c => 10 * value + (c.toNat - '0'.toNat)) 0

end Refutation.Text
