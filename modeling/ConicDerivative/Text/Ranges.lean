/-!
Sets of characters, as closed ranges of code points. The tables of this folder follow version 14.0
of the Unicode standard.
-/

namespace ConicDerivative.Text

abbrev Ranges := List (Nat × Nat)

namespace Ranges

def contains (ranges : Ranges) (c : Char) : Bool :=
  ranges.any fun (low, high) => decide (low ≤ c.toNat) && decide (c.toNat ≤ high)

end Ranges

end ConicDerivative.Text
