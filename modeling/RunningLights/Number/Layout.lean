import RunningLights.Number.Shortest

/-!
# Written floats

A float is written by laying out its shortest decimal.  The decisions of a written form are one `Layout`:
which exponents are positional, whether a whole number keeps a zero after the point, and the words for the
values that have no digits.
-/

namespace RunningLights.Number

/-- The decisions of a written form. -/
structure Layout where
  /-- The exponents of the leading digit that are written positionally, from the first up to but not including the
  second; all of them if absent. -/
  positional : Option (Int × Int)
  /-- A whole number ends in `.0`. -/
  pointZero : Bool
  nan : String
  infinity : String

/-- The form of messages and labels: never an exponent, and no point after a whole number. -/
def plainLayout : Layout := ⟨none, false, "NaN", "inf"⟩

/-- The form of number tokens: an exponent from `10 ^ 16` on and below `10 ^ -4`. -/
def tokenLayout : Layout := ⟨some (-4, 16), true, "NaN", "inf"⟩

/-- The form of settings files: never an exponent, always a point. -/
def settingLayout : Layout := ⟨none, true, "nan", "inf"⟩

/-- The decimal written with its point in place. -/
def Decimal.positional (d : Decimal) (pointZero : Bool) : List Char :=
  let ds := Nat.toDigits 10 d.digits
  if 0 ≤ d.exp then
    ds ++ List.replicate d.exp.toNat '0' ++ (if pointZero then ['.', '0'] else [])
  else
    let places := (-d.exp).toNat
    let padded := List.replicate (places + 1 - ds.length) '0' ++ ds
    let whole := padded.length - places
    padded.take whole ++ '.' :: padded.drop whole

/-- The decimal written with one digit before the point and an exponent. -/
def Decimal.scientific (d : Decimal) : List Char :=
  let ds := Nat.toDigits 10 d.digits
  let fraction := ds.drop 1
  ds.take 1 ++ (if fraction.isEmpty then [] else '.' :: fraction) ++
    'e' :: (toString (d.exp + fraction.length)).toList

/-- The finite magnitude laid out. -/
def Layout.magnitude (l : Layout) (x : Binary) : List Char :=
  let d := x.shortest
  let lead := d.exp + (Nat.toDigits 10 d.digits).length - 1
  let isPositional := match l.positional with
    | none => true
    | some (low, high) => d.digits == 0 || (low ≤ lead && lead < high)
  if isPositional then d.positional l.pointZero else d.scientific

/-- The written form of `x`. -/
def Layout.write (l : Layout) (x : Float) : String :=
  if x.isNaN then l.nan
  else
    let sign := if signBit x then ['-'] else []
    let magnitude := if x.isInf then l.infinity.toList else l.magnitude (Binary.ofBits x.toBits)
    String.ofList (sign ++ magnitude)

end RunningLights.Number
