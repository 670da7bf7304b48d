/-!
# Ranges of code points

A property of characters is written as a list of closed ranges of code points above ASCII.
-/

namespace Untranslated.Text

/-- The code point of `c` lies in one of the closed ranges. -/
def inRanges (ranges : List (Nat × Nat)) (c : Char) : Bool :=
  ranges.any fun r => r.1 ≤ c.toNat && c.toNat ≤ r.2

end Untranslated.Text
