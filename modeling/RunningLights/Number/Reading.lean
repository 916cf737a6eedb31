/-!
# Reading decimal literals

A literal is read exactly, as digits and a power of ten, and rounded once.
-/

namespace RunningLights.Number

/-- The number written by decimal digits; other characters do not occur. -/
def digitsValue (ds : List Char) : Nat :=
  ds.foldl (fun n c => 10 * n + (c.toNat - '0'.toNat)) 0

/-- The digits as a number, if they are digits and there is one at least. -/
def natOfDigits? (ds : List Char) : Option Nat :=
  if ds.isEmpty || !ds.all Char.isDigit then none else some (digitsValue ds)

/-- The float closest to `m * 10 ^ e`.  Beyond an exponent of 400 past the digits the value is infinite or zero. -/
def floatOfScientific (m : Nat) (e : Int) : Float :=
  let lead := e + (Nat.toDigits 10 m).length
  if m = 0 then 0.0
  else if 400 < lead then 1.0 / 0.0
  else if lead < -400 then 0.0
  else Float.ofScientific m (e < 0) e.natAbs

/-- A literal of digits around at most one point, with a digit at least; one side of the point may be empty. -/
def pointLiteral? (cs : List Char) : Option Float :=
  let whole := cs.takeWhile Char.isDigit
  let fraction := match cs.dropWhile Char.isDigit with
    | [] => some []
    | '.' :: ds => if ds.all Char.isDigit then some ds else none
    | _ => none
  match fraction with
  | none => none
  | some ds =>
    if whole.isEmpty && ds.isEmpty then none
    else some (floatOfScientific (digitsValue (whole ++ ds)) (-(ds.length : Int)))

/-- An exponent: an optional sign and digits. -/
def exponent? (cs : List Char) : Option Int :=
  match cs with
  | '-' :: ds => (natOfDigits? ds).map fun n => -(n : Int)
  | '+' :: ds => (natOfDigits? ds).map Int.ofNat
  | ds => (natOfDigits? ds).map Int.ofNat

/-- An unsigned number with an optional exponent, or a word for infinity or for no number, in any case. -/
def magnitude? (cs : List Char) : Option Float :=
  let word := String.ofList (cs.map Char.toLower)
  if word == "inf" || word == "infinity" then some (1.0 / 0.0)
  else if word == "nan" then some (0.0 / 0.0)
  else
    let mantissa := cs.takeWhile fun c => c != 'e' && c != 'E'
    let whole := mantissa.takeWhile Char.isDigit
    let tail := mantissa.dropWhile Char.isDigit
    let fraction := tail.drop 1
    let shaped := (tail.isEmpty || tail.head? == some '.') && fraction.all Char.isDigit &&
      !(whole.isEmpty && fraction.isEmpty)
    let e := match cs.drop mantissa.length with
      | [] => some 0
      | _ :: ds => exponent? ds
    match shaped, e with
    | true, some e => some (floatOfScientific (digitsValue (whole ++ fraction)) (e - fraction.length))
    | _, _ => none

/-- The number written by a text: an optional sign and a magnitude, nothing around them. -/
def floatOfText? (text : String) : Option Float :=
  match text.toList with
  | '-' :: cs => (magnitude? cs).map fun x => -x
  | '+' :: cs => magnitude? cs
  | cs => magnitude? cs

end RunningLights.Number
