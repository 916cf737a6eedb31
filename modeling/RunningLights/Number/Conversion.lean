import RunningLights.Number.Checked

/-!
# Words and floats

A 64-bit integer is turned into the float closest to it, and a float into its integer part.
-/

namespace RunningLights.Number

/-- The float closest to an integer. -/
def floatOf (n : Int64) : Float :=
  let magnitude := (UInt64.ofNat n.toInt.natAbs).toFloat
  if n.toInt < 0 then -magnitude else magnitude

/-- The integer part of a float, moved to the nearest end of the range if it lies outside; that of what is no
number is zero. -/
def wordOf (x : Float) : Int64 :=
  if x < 0 then clamp (-((-x).toUInt64.toNat : Int)) else clamp x.toUInt64.toNat

end RunningLights.Number
