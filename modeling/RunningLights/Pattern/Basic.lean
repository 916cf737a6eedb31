import RunningLights.Pattern.Compiled
import RunningLights.Text.Lowercase

/-!
# Patterns

A pattern is a named expression over the channels, with declared slots.  Each slot has a default and may bound the
number that is written into it.
-/

namespace RunningLights

/-- The groups that a picker shows patterns in. -/
inductive PatternCategory where
  | basic
  | mathematical
  | sequential
  | custom
  deriving Repr, DecidableEq, Inhabited

/-- What may be written into a slot. -/
inductive SlotKind where
  | number
  | boolean
  deriving Repr, DecidableEq, Inhabited

/-- A declared slot of a pattern. -/
structure PatternSlot where
  name : String
  kind : SlotKind
  default : ParamValue
  min : Option Float
  max : Option Float
  deriving Inhabited

/-- A named expression over the channels. -/
structure Pattern where
  id : String
  name : String
  description : String
  text : String
  category : PatternCategory
  slots : List PatternSlot
  deriving Inhabited

/-- Moves a number into the bounds of the slot, the lower one first. -/
def PatternSlot.clamp (s : PatternSlot) : ParamValue → ParamValue
  | .number x =>
    let x := match s.min with
      | some low => Number.greater x low
      | none => x
    let x := match s.max with
      | some high => Number.lesser x high
      | none => x
    .number x
  | .bool b => .bool b

/-- The word for a category. -/
def PatternCategory.word : PatternCategory → String
  | .basic => "basic"
  | .mathematical => "mathematical"
  | .sequential => "sequential"
  | .custom => "custom"

namespace Pattern

/-- A pattern of the user's own, without slots.  Its id is made from its name. -/
def custom (name text : String) : Pattern where
  id := "custom_" ++ String.ofList ((Text.lowercase name).toList.map fun c => if c == ' ' then '_' else c)
  name := name
  description := ""
  text := text
  category := .custom
  slots := []

/-- The value that a slot gets: the override or the default, moved into the bounds. -/
def slotValue (overrides : Parameters) (s : PatternSlot) : ParamValue :=
  s.clamp ((overrides.get? s.name).getD s.default)

/-- The parameters of all slots.  Overrides of names that the pattern does not declare are kept as they are. -/
def resolve (p : Pattern) (overrides : Parameters) : Parameters :=
  p.slots.foldl (fun ps s => ps.insert s.name (slotValue overrides s)) overrides

end Pattern

end RunningLights
