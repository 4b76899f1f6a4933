/-! Ranges of characters, both ends included. -/

namespace Refutation.Text

structure Range where
  first : Nat
  last : Nat

def Range.contains (range : Range) (c : Char) : Bool :=
  decide (range.first ≤ c.toNat) && decide (c.toNat ≤ range.last)

end Refutation.Text
