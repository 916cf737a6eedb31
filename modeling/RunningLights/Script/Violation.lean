/-!
# Places in a text and violations

A violation says why a script is refused, and mostly where.

* `Position.after_nil` — the first character of a text is in line 1, column 1.
-/

namespace RunningLights.Script

/-- A place in a text: the line, and the character of the line, both counted from 1. -/
structure Position where
  line : Nat
  column : Nat
  deriving Repr, DecidableEq, Inhabited

namespace Position

/-- The first place of a text. -/
def start : Position := ⟨1, 1⟩

/-- The place behind a character. -/
def next (p : Position) (c : Char) : Position :=
  if c = '\n' then ⟨p.line + 1, 1⟩ else ⟨p.line, p.column + 1⟩

/-- The place of what follows a piece of text from its start. -/
def after (before : List Char) : Position :=
  ⟨before.count '\n' + 1, (before.reverse.takeWhile (· ≠ '\n')).length + 1⟩

theorem after_nil : after [] = start := rfl

end Position

/-- Why a script is refused. -/
structure Violation where
  message : String
  line : Option Nat
  column : Option Nat
  deriving Repr, DecidableEq, Inhabited

namespace Violation

/-- A violation of the whole script. -/
def general (message : String) : Violation := ⟨message, none, none⟩

/-- A violation at one place. -/
def atPlace (message : String) (p : Position) : Violation := ⟨message, some p.line, some p.column⟩

/-- The characters that begin before a byte offset. -/
def beforeByte : Nat → List Char → List Char
  | 0, _ => []
  | _, [] => []
  | n + 1, c :: cs => c :: beforeByte (n + 1 - c.utf8Size) cs

/-- A violation at a byte offset of a text. -/
def atByte (message : String) (text : String) (offset : Nat) : Violation :=
  .atPlace message (.after (beforeByte offset text.toList))

/-- The violation as it is shown, with its place as far as that is known. -/
def text (v : Violation) : String :=
  match v.line, v.column with
  | some line, some column => s!"{v.message} (line {line}, column {column})"
  | some line, none => s!"{v.message} (line {line})"
  | none, _ => v.message

end Violation

end RunningLights.Script
