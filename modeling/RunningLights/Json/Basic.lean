import RunningLights.Number.Checked

/-!
# JSON documents

A document is a tree.  Numbers keep their spelling, and members of objects their order.  A string whose escapes name
code units that form no character has no text, but is a string all the same, also as the key of a member.
-/

namespace RunningLights

/-- A JSON document. -/
inductive Json where
  | null
  | bool (b : Bool)
  | number (literal : List Char)
  | string (text : Option String)
  | array (items : List Json)
  | object (members : List (Option String × Json))
  deriving Inhabited

namespace Json

/-- The number as a word: digits and nothing else, within 64 bits. -/
def word? : Json → Option Nat
  | .number literal =>
    if literal.all Char.isDigit then
      let n := literal.foldl (fun n c => 10 * n + (c.toNat - '0'.toNat)) 0
      if n < Number.wordBound then some n else none
    else none
  | _ => none

def bool? : Json → Option Bool
  | .bool b => some b
  | _ => none

def text? : Json → Option String
  | .string text => text
  | _ => none

/-- The items, each read by `f`. -/
def items? {α : Type} (f : Json → Option α) : Json → Option (List α)
  | .array items => items.mapM f
  | _ => none

end Json

end RunningLights
