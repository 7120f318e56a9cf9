/-!
# Ascending ranges of code points

Character classes are kept as ascending lists of ranges, so that a lookup may
stop at the first range that begins after the wanted code point.
-/

namespace Squishc.Text

/-- Membership in an ascending list of ranges with both ends included. -/
def inRanges : List (Nat × Nat) → Nat → Bool
  | [], _ => false
  | (low, high) :: rest, n =>
    if n < low then false
    else if n ≤ high then true
    else inRanges rest n

end Squishc.Text
