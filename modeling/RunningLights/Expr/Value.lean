import RunningLights.Number.Conversion
import RunningLights.Number.Layout

/-!
# Values of expressions

A value is a 64-bit integer, a float or a Boolean.  Booleans count as the integers 0 and 1; floats are never
taken for integers without being asked (`Value.asInt`).
-/

namespace RunningLights

open Number

/-- What an expression evaluates to. -/
inductive Value where
  | int (n : Int64)
  | float (x : Float)
  | bool (b : Bool)
  deriving Inhabited

/-- A Boolean counted as an integer. -/
def boolInt (b : Bool) : Int64 := if b then 1 else 0

namespace Value

/-- The value as a float. -/
def toFloat : Value → Float
  | .int n => floatOf n
  | .float x => x
  | .bool b => if b then 1.0 else 0.0

/-- The value as an integer, if it is none by rounding: floats have none. -/
def integral? : Value → Option Int64
  | .int n => some n
  | .bool b => some (boolInt b)
  | .float _ => none

/-- Zero, not-a-number and false are not true; all else is. -/
def truthy : Value → Bool
  | .int n => n != 0
  | .float x => x != 0 && !x.isNaN
  | .bool b => b

/-- The text of a value in messages and labels. -/
def text : Value → String
  | .int n => toString n.toInt
  | .float x => plainLayout.write x
  | .bool b => if b then "true" else "false"

end Value

/-- Why an expression has no value. -/
inductive EvalError where
  | unknownIdentifier (name : String)
  | unknownFunction (name : String)
  | notAnArray (name : String)
  | indexOutOfBounds (name : String) (index : Int64)
  | divisionByZero
  | overflow
  | notFinite (x : Float)
  | arity (name : String) (expected got : Nat)
  | expectedReference (name : String)
  | callDepth
  | unsupported (what : String)
  deriving Inhabited

/-- The wording of an evaluation error. -/
def EvalError.message : EvalError → String
  | .unknownIdentifier name => s!"unknown identifier '{name}'"
  | .unknownFunction name => s!"unknown function '{name}'"
  | .notAnArray name => s!"'{name}' is not an array"
  | .indexOutOfBounds name index => s!"index {index.toInt} out of bounds for '{name}'"
  | .divisionByZero => "division by zero"
  | .overflow => "integer overflow"
  | .notFinite x => "non-finite number " ++ plainLayout.write x
  | .arity name expected got => s!"wrong number of arguments for '{name}': expected {expected}, got {got}"
  | .expectedReference name => s!"argument of '{name}' must be a variable name"
  | .callDepth => "call depth limit exceeded"
  | .unsupported what => what

/-- The value as an integer, cut off at the point; the infinities and not-a-number have none. -/
def Value.asInt : Value → Except EvalError Int64
  | .int n => .ok n
  | .bool b => .ok (boolInt b)
  | .float x => if x.isFinite then .ok (wordOf x) else .error (.notFinite x)

end RunningLights
