import RunningLights.Number.Conversion
import RunningLights.Number.Layout

/-!
# The values of scripts

A script computes with more than numbers: it has texts, arrays and sequences of integers, and a value that stands
for nothing.

* `Span` — equally spaced integers, which loops run over.
-/

namespace RunningLights.Script

/-- Equally spaced integers: so many of them from the first on. -/
structure Span where
  first : Int
  step : Int
  count : Nat
  deriving Repr, DecidableEq, Inhabited

/-- A value of a script. -/
inductive Datum where
  | unit
  | bool (b : Bool)
  | int (n : Int64)
  | float (x : Float)
  | text (s : String)
  | span (s : Span)
  | array (items : Array Datum)
  deriving Inhabited

namespace Span

/-- The integers from the first up to but not including the last. -/
def upTo (first last : Int) : Span := ⟨first, 1, (last - first).toNat⟩

/-- The integers from the first up to and including the last. -/
def through (first last : Int) : Span := ⟨first, 1, (last + 1 - first).toNat⟩

/-- The number of steps that it takes from the first to the last or beyond; none if they lead away from it. -/
def stepsTo (first last step : Int) : Nat :=
  if 0 < step then ((last - first + step - 1) / step).toNat
  else if step < 0 then ((first - last + -step - 1) / -step).toNat
  else 0

/-- The integers from the first on at equal distances, up to but not including the last.  One behind which a step
leaves the range of integers is left out. -/
def stepped (first last step : Int) : Span :=
  let n := stepsTo first last step
  ⟨first, step, if Number.Fits (first + n * step) then n else n - 1⟩

/-- The integer number `k`, counting from zero. -/
def get (s : Span) (k : Nat) : Int64 := Int64.ofInt (s.first + k * s.step)

end Span

namespace Datum

/-- The name of the type of a value. -/
def typeName : Datum → String
  | unit => "()"
  | bool _ => "bool"
  | int _ => "i64"
  | float _ => "f64"
  | text _ => "string"
  | span _ => "range"
  | array _ => "array"

mutual

/-- Two values are the same.  An integer is the same as a float of its value. -/
def same : Datum → Datum → Bool
  | unit, unit => true
  | bool a, bool b => a == b
  | int a, int b => a == b
  | float a, float b => a == b
  | int a, float b => Number.floatOf a == b
  | float a, int b => a == Number.floatOf b
  | text a, text b => a == b
  | span a, span b => a == b
  | array ⟨as⟩, array ⟨bs⟩ => sameList as bs
  | _, _ => false

/-- Two lists of values are the same. -/
def sameList : List Datum → List Datum → Bool
  | [], [] => true
  | a :: as, b :: bs => same a b && sameList as bs
  | _, _ => false

end

/-- The array of some integers. -/
def ofInts (ns : List Int64) : Datum := .array (ns.map Datum.int).toArray

mutual

/-- The value as text. -/
def write : Datum → String
  | unit => ""
  | bool b => if b then "true" else "false"
  | int n => toString n.toInt
  | float x => Number.tokenLayout.write x
  | text s => s
  | span s => toString s.first ++ ".." ++ toString (s.first + s.count * s.step)
  | array ⟨items⟩ => "[" ++ writeList items ++ "]"

/-- Values as text, with commas between them. -/
def writeList : List Datum → String
  | [] => ""
  | [d] => write d
  | d :: ds => write d ++ ", " ++ writeList ds

end

end Datum

end RunningLights.Script
