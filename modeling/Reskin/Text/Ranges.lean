import Reskin.Text.Basic

/-!
# Ranges of code points

## Main definitions

* `inRanges`: whether a character lies in one of the given closed ranges
-/

namespace Reskin

/-- Whether the code point of `c` lies in one of the closed ranges. -/
def inRanges (ranges : List (Nat × Nat)) (c : Char) : Bool :=
  ranges.any fun (lo, hi) => lo ≤ c.toNat && c.toNat ≤ hi

end Reskin
