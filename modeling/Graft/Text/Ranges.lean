/-
Tables of code points.

A character class that no short rule describes is a list of closed ranges of
code points in ascending order; `inRanges` looks a character up in it.
-/
import Graft.Text.Basic

namespace Graft.Text

/-- The code point of the character lies in one of the closed ranges. -/
def inRanges (ranges : List (Nat × Nat)) (c : Char) : Bool :=
  ranges.any fun r => r.1 ≤ c.toNat && c.toNat ≤ r.2

end Graft.Text
