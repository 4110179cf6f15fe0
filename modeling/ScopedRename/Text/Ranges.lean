/-! Membership in an ascending list of closed ranges, the form in which character classes are tabulated. -/

namespace ScopedRename.Text

/-- Whether `n` lies in one of the ascending, disjoint ranges. The search stops at the first range above `n`. -/
def inRanges : List (Nat × Nat) → Nat → Bool
  | [], _ => false
  | (low, high) :: rest, n => if n < low then false else if n ≤ high then true else inRanges rest n

end ScopedRename.Text
