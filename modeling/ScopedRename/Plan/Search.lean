/-! Binary search for the end of a leading run. -/

namespace ScopedRename

/-- The first index from `low` up to `high` at which a test fails, for a test that holds below some index and fails
from it on. -/
def partitionPoint (test : Nat → Bool) (low high : Nat) : Nat :=
  if low < high then
    let middle := (low + high) / 2
    if test middle then partitionPoint test (middle + 1) high else partitionPoint test low middle
  else
    low
termination_by high - low

end ScopedRename
