/-!
Properties of characters as lists of code point ranges.
-/

set_option autoImplicit false

namespace Toolpath.Text

def inRanges (ranges : List (Nat × Nat)) (c : Char) : Bool :=
  ranges.any fun (low, high) => low ≤ c.toNat && c.toNat ≤ high

end Toolpath.Text
