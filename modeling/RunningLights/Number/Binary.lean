import RunningLights.Number.Conversion

/-!
# Floating-point values as exact binary fractions

`Binary.ofBits` reads the bits of a finite non-negative float as `m * 2 ^ q`.  On that form a decimal can be
compared with a float, and a remainder taken, in exact integer arithmetic.
-/

namespace RunningLights.Number

/-- The magnitude `m * 2 ^ q` of a finite float. -/
structure Binary where
  m : Nat
  q : Int
  /-- The gap to the value below is half the gap to the value above. -/
  narrowBelow : Bool
  deriving Repr, DecidableEq

/-- The magnitude of the finite float with the given bits; the sign bit is ignored. -/
def Binary.ofBits (b : UInt64) : Binary :=
  let e := ((b >>> 52) &&& 0x7FF).toNat
  let f := (b &&& 0xFFFFFFFFFFFFF).toNat
  if e == 0 then ⟨f, -1074, false⟩ else ⟨4503599627370496 + f, (e : Int) - 1075, f == 0 && e > 1⟩

/-- The sign bit, which zeros and NaN carry as well. -/
def signBit (x : Float) : Bool := x.toBits >>> 63 == 1

/-- The value cut off at the point.  A zero keeps the sign, and a large value has nothing behind the point. -/
def truncate (x : Float) : Float :=
  if x.abs < 1 then 0 * x
  else if x.abs < 4503599627370496 then floatOf (wordOf x)
  else x

/-- The greater of two numbers, the positive of two zeros; what is no number gives way. -/
def greater (x y : Float) : Float :=
  if x.isNaN then y
  else if y.isNaN then x
  else if x < y || (x == y && signBit x) then y else x

/-- The lesser of two numbers, the negative of two zeros; what is no number gives way. -/
def lesser (x y : Float) : Float :=
  if x.isNaN then y
  else if y.isNaN then x
  else if y < x || (x == y && signBit y) then y else x

/-- The exact remainder of two magnitudes, on the finer of their two scales. -/
def Binary.remainder (x y : Binary) : Nat × Int :=
  let q := min x.q y.q
  ((x.m * Nat.pow 2 (x.q - q).toNat) % (y.m * Nat.pow 2 (y.q - q).toNat), q)

/-- The remainder of `x / y` with the quotient cut off at the point, computed without rounding.  It has the sign
of `x`. -/
def remainder (x y : Float) : Float :=
  if x.isNaN || y.isNaN || x.isInf || y == 0 then 0.0 / 0.0
  else if y.isInf then x
  else
    let (r, q) := (Binary.ofBits x.toBits).remainder (Binary.ofBits y.toBits)
    let magnitude := (Float.ofNat r).scaleB q
    if signBit x then -magnitude else magnitude

end RunningLights.Number
