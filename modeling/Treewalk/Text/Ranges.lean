/-!
# Sets of code points

A set of code points is kept as a table of inclusive ranges in ascending order.
-/

namespace Treewalk

/-- Code points as inclusive ranges, ascending. -/
abbrev Ranges := Array (Nat × Nat)

/-- Is `c` in one of the ranges? -/
def Ranges.contains (rs : Ranges) (c : Nat) : Bool := rs.any fun r => r.1 ≤ c && c ≤ r.2

end Treewalk
