/-!
# Sets of characters given by ranges

A property of characters is a table of ranges of code points, both ends included.

## Main definitions

* `Text.Unicode.inRanges`: membership in such a table.
-/

namespace Attestation.Text.Unicode

/-- Whether a character lies in one of the ranges. -/
def inRanges (table : List (Nat × Nat)) (c : Char) : Bool :=
  table.any fun (first, last) => first ≤ c.toNat && c.toNat ≤ last

end Attestation.Text.Unicode
