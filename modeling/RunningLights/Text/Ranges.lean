/-!
# Character classes as ranges

A class of characters beyond ASCII is a list of ranges of code points.
-/

namespace RunningLights.Text

/-- Ranges of code points, both ends included. -/
abbrev Ranges := Array (Nat × Nat)

/-- The character lies in one of the ranges. -/
def Ranges.contains (rs : Ranges) (c : Char) : Bool :=
  rs.any fun r => r.1 ≤ c.toNat && c.toNat ≤ r.2

end RunningLights.Text
