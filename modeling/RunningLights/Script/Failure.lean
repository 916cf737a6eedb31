import RunningLights.Script.Datum
import RunningLights.Script.Session
import RunningLights.Script.Violation

/-!
# How the run of a script is cut short

A failure of the script can be caught by the script itself, but not that it has used up what it may use, and never
an abort of the run.
-/

namespace RunningLights.Script

/-- What goes wrong while a script is run. -/
inductive Failure where
  | unknownVariable (name : String)
  | unknownFunction (name : String) (types : List String)
  | unknownProperty (name : String) (type : String)
  | constant (name : String)
  /-- A method that changes what it is called on was called on a constant. -/
  | constantReceiver (method : String)
  | arithmetic (reason : String)
  | outOfBounds (index : Int64) (size : Nat)
  | notIndexable (type : String)
  | mismatched (wanted found : String)
  | notIterable
  | noModule (name : String)
  | thrown (v : Datum)
  /-- More calls are active than may be. -/
  | callDepth
  | arraySize
  | textSize
  deriving Inhabited

namespace Failure

/-- The script can catch the failure. -/
def isCatchable : Failure → Bool
  | callDepth | arraySize | textSize => false
  | _ => true

/-- The value that a handler sees. -/
def value : Failure → Datum
  | thrown v => v
  | _ => .unit

/-- The wording of a failure. -/
def message : Failure → String
  | unknownVariable name => s!"Variable not found: {name}"
  | unknownFunction name types => "Function not found: " ++ name ++ " (" ++ ", ".intercalate types ++ ")"
  | unknownProperty name type => s!"Unknown property '{name}' - a getter is not registered for type '{type}'"
  | constant name => s!"Cannot modify constant: {name}"
  | constantReceiver method => s!"Non-pure method '{method}' cannot be called on constant"
  | arithmetic reason => reason
  | outOfBounds index 0 => s!"Array index {index.toInt} out of bounds: array is empty"
  | outOfBounds index 1 => s!"Array index {index.toInt} out of bounds: only 1 element in array"
  | outOfBounds index size => s!"Array index {index.toInt} out of bounds: only {size} elements in array"
  | notIndexable type => s!"Indexer unavailable: {type}"
  | mismatched wanted found => s!"Data type incorrect: {found} (expecting {wanted})"
  | notIterable => "For loop expects an iterable type"
  | noModule name => s!"Module not found: {name}"
  | thrown .unit => "Runtime error"
  | thrown v => "Runtime error: " ++ v.write
  | callDepth => "Stack overflow"
  | arraySize => "Size of array/BLOB exceeds maximum limit"
  | textSize => "Length of string exceeds maximum limit"

end Failure

/-- How a statement ends before its end. -/
inductive Signal where
  | abort (a : Abort)
  | failed (f : Failure) (place : Position)
  /-- The loop ends. -/
  | leave (v : Datum)
  /-- The pass of the loop ends. -/
  | again
  /-- The function ends. -/
  | ret (v : Datum)
  deriving Inhabited

end RunningLights.Script
