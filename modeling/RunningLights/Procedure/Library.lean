import RunningLights.Expr.Basic

/-!
# The function library

The functions that programs may call, as operations on values, and the matrix by which sequences split the channels
into segments.

* `segment` — the channels of one segment of the strip;
* `matrixRow?` — the row of the matrix for a number of channels.
-/

namespace RunningLights

/-- The library functions, which are found before those of the program. -/
inductive Builtin where
  | map
  | ceil
  | floor
  | abs
  | random
  | findMax
  | min
  | max
  | constrain
  | resetArray
  | shiftByOrder
  deriving Repr, DecidableEq, Inhabited

namespace Builtin

def all : List Builtin :=
  [map, ceil, floor, abs, random, findMax, min, max, constrain, resetArray, shiftByOrder]

/-- The name that programs call the function by. -/
def name : Builtin → String
  | map => "map"
  | ceil => "ceil"
  | floor => "floor"
  | abs => "abs"
  | random => "random"
  | findMax => "findMax"
  | min => "min"
  | max => "max"
  | constrain => "constrain"
  | resetArray => "resetArray"
  | shiftByOrder => "shiftArrayAccordingToOrder"

def ofName? (s : String) : Option Builtin := all.find? fun b => b.name == s

end Builtin

namespace Library

open Number

/-! ### Numbers -/

/-- Moves `x` from the range `a … b` to the range `c … d`, in exact integers, each step of which has to fit. -/
def mapInts (x a b c d : Int64) : Except EvalError Value :=
  if b = a then .error .divisionByZero
  else
    let scaled := do
      let dx ← fit? (x.toInt - a.toInt)
      let span ← fit? (d.toInt - c.toInt)
      let num ← fit? (dx.toInt * span.toInt)
      let den ← fit? (b.toInt - a.toInt)
      let quotient ← fit? (num.toInt.tdiv den.toInt)
      fit? (quotient.toInt + c.toInt)
    match scaled with
    | some n => .ok (.int n)
    | none => .error .overflow

/-- Moves `x` from the range `a … b` to the range `c … d`, in floats. -/
def mapFloats (x a b c d : Float) : Except EvalError Value :=
  if b == a then .error .divisionByZero else .ok (.float ((x - a) * (d - c) / (b - a) + c))

/-- Moves a value from one range to another, in integers if all arguments are. -/
def mapRange (x a b c d : Value) : Except EvalError Value :=
  match x.integral?, a.integral?, b.integral?, c.integral?, d.integral? with
  | some x, some a, some b, some c, some d => mapInts x a b c d
  | _, _, _, _, _ => mapFloats x.toFloat a.toFloat b.toFloat c.toFloat d.toFloat

/-- The value rounded by `round` if it is a float, as an integer. -/
def rounded (round : Float → Float) (v : Value) : Except EvalError Value :=
  let whole : Value := match v with
    | .float x => .float (round x)
    | v => v
  whole.asInt.map .int

def ceil (v : Value) : Except EvalError Value := rounded Float.ceil v

def floor (v : Value) : Except EvalError Value := rounded Float.floor v

def abs : Value → Except EvalError Value
  | .float x => .ok (.float x.abs)
  | .int n => exactly n.toInt.natAbs
  | .bool b => exactly (boolInt b).toInt.natAbs

/-- Moves a value into a range; the values are compared as floats. -/
def constrain (v low high : Value) : Value :=
  if v.toFloat < low.toFloat then low
  else if high.toFloat < v.toFloat then high
  else v

/-- The greatest of the numbers before the terminator -1, which cannot be the first. -/
def findMax? : List Int64 → Option Int64
  | [] => none
  | first :: rest => some ((rest.takeWhile (· != -1)).foldl (fun m v => if m < v then v else m) first)

/-! ### Segments of the strip -/

/-- The sizes of the eight segments, one row for every even number of channels from 24 down to 8. -/
def matrix : List (List Int64) := [
  [3, 4, 4, 1, 1, 4, 4, 3],
  [3, 3, 4, 1, 1, 4, 3, 3],
  [3, 3, 3, 1, 1, 3, 3, 3],
  [3, 2, 3, 1, 1, 3, 2, 3],
  [3, 2, 2, 1, 1, 2, 2, 3],
  [3, 1, 2, 1, 1, 1, 2, 3],
  [3, 1, 1, 1, 1, 1, 1, 3],
  [3, 0, 1, 1, 1, 1, 0, 3],
  [3, 0, 0, 1, 1, 0, 0, 3]]

/-- The row for a number of channels, if the matrix has it. -/
def matrixRow? (total : Int64) (rows : Nat) : Option Nat := do
  let missing ← fit? (24 - total.toInt)
  let row := missing.toInt.tdiv 2
  if 0 ≤ row ∧ row.toNat < rows then some row.toNat else none

/-- The size of a segment; there are no negative ones. -/
def segmentSize (n : Int64) : Nat := n.toInt.toNat

/-- The sum of the segment sizes, kept within the 64-bit range at every step. -/
def segmentStart (sizes : List Int64) : Nat :=
  (sizes.foldl (fun acc n => clamp (acc.toInt + n.toInt)) (0 : Int64)).toInt.toNat

/-- The channels of segment `target`: so many of `main` as the row says, behind those of the segments before it.
There are none if the number of channels has no row or the row no such segment. -/
def segment (rows : List (List Int64)) (main : List Int64) (total target : Int64) (reverse : Bool) :
    List Int64 :=
  match (matrixRow? total rows.length).bind fun r => rows[r]? with
  | none => []
  | some row =>
    if target.toInt < 0 then []
    else match row[target.toInt.toNat]? with
      | none => []
      | some size =>
        let found := (main.drop (segmentStart (row.take target.toInt.toNat))).take (segmentSize size)
        if reverse then found.reverse else found

end Library

end RunningLights
