import RunningLights.Frame.Basic
import RunningLights.Json.Parser
import RunningLights.Json.Printer

/-!
# Frames as JSON

A frame is an object with its id, its channels, its delay in whole milliseconds and, if it has one, its label.  When
a frame is read, unknown members are passed over, but a known one must not occur twice, and every key must be a text; an
array of the members' values in their order is read as well.
-/

namespace RunningLights.Frame

/-- The members of a frame. -/
def toJson (f : Frame) : Json :=
  .object ([(some "id", .string (some f.id)), (some "channels", .array (f.channels.toList.map .bool)),
    (some "delay_ms", .number (Nat.toDigits 10 f.delay.millis))] ++
    match f.label with
    | some label => [(some "label", .string (some label))]
    | none => [])

/-- A label, or none. -/
def labelOf? : Json → Option (Option String)
  | .null => some none
  | j => j.text?.map some

/-- The frame of its members' values; an absent label is none. -/
def ofValues? (id channels delay : Json) (label : Option Json) : Option Frame := do
  let id ← id.text?
  let channels ← channels.items? Json.bool?
  let ms ← delay.word?
  let label ← match label with
    | some j => labelOf? j
    | none => some none
  return ⟨id, channels.toArray, .ofMillis ms, label⟩

/-- The member of a name, which must not occur twice; the first part is nothing if it does. -/
def member? (name : String) (members : List (Option String × Json)) : Option (Option Json) :=
  match members.filter fun m => m.1 == some name with
  | [] => some none
  | [(_, j)] => some (some j)
  | _ => none

/-- The frame of the members of an object. -/
def ofMembers? (members : List (Option String × Json)) : Option Frame := do
  let id ← (← member? "id" members)
  let channels ← (← member? "channels" members)
  let delay ← (← member? "delay_ms" members)
  ofValues? id channels delay (← member? "label" members)

/-- The frame of a JSON document. -/
def ofJson? : Json → Option Frame
  | .object members => if members.all fun m => m.1.isSome then ofMembers? members else none
  | .array [id, channels, delay] => ofValues? id channels delay none
  | .array [id, channels, delay, label] => ofValues? id channels delay (some label)
  | _ => none

/-- The frame as a JSON text without blanks. -/
def encode (f : Frame) : String := String.ofList f.toJson.compact

/-- The frame that a JSON text holds. -/
def decode? (text : String) : Option Frame := (Json.parse? text.toList).bind ofJson?

end RunningLights.Frame
