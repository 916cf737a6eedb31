import RunningLights.Json.Basic

/-!
# Writing JSON

`Json.compact` writes a document without blanks, `Json.pretty` with one item a line and two blanks for every level.
In strings, quotes, backslashes and controls are escaped and all else stands for itself.
-/

namespace RunningLights.Json

/-- The escape of a control character that has no short one. -/
def unicodeEscape (n : Nat) : List Char :=
  let digit (d : Nat) : Char := Char.ofNat (if d < 10 then '0'.toNat + d else 'a'.toNat + (d - 10))
  ['\\', 'u', '0', '0', digit (n / 16), digit (n % 16)]

/-- A character inside quotes. -/
def escapeChar (c : Char) : List Char :=
  if c == '"' then ['\\', '"']
  else if c == '\\' then ['\\', '\\']
  else if c == '\n' then ['\\', 'n']
  else if c == '\r' then ['\\', 'r']
  else if c == '\t' then ['\\', 't']
  else if c.toNat == 8 then ['\\', 'b']
  else if c.toNat == 12 then ['\\', 'f']
  else if c.toNat < 32 then unicodeEscape c.toNat
  else [c]

/-- A string in quotes. -/
def quoted (cs : List Char) : List Char := '"' :: cs.flatMap escapeChar ++ ['"']

mutual

/-- The document without blanks. -/
def compact : Json → List Char
  | .null => "null".toList
  | .bool true => "true".toList
  | .bool false => "false".toList
  | .number literal => literal
  | .string text => quoted ((text.getD "").toList)
  | .array [] => ['[', ']']
  | .array (j :: js) => '[' :: (compact j ++ compactItems js ++ [']'])
  | .object [] => ['\x7b', '\x7d']
  | .object ((k, j) :: ms) => '\x7b' :: (quoted (k.getD "").toList ++ ':' :: compact j ++ compactMembers ms ++ ['\x7d'])

/-- The items behind the first. -/
def compactItems : List Json → List Char
  | [] => []
  | j :: js => ',' :: compact j ++ compactItems js

/-- The members behind the first. -/
def compactMembers : List (Option String × Json) → List Char
  | [] => []
  | (k, j) :: ms => ',' :: quoted (k.getD "").toList ++ ':' :: compact j ++ compactMembers ms

end

/-- The start of a line on a level. -/
def newLine (level : Nat) : List Char := '\n' :: List.replicate (2 * level) ' '

mutual

/-- The document on lines of its own, as it stands on a level. -/
def prettyAt (level : Nat) : Json → List Char
  | .array (j :: js) =>
    '[' :: newLine (level + 1) ++ prettyAt (level + 1) j ++ prettyItems level js ++ newLine level ++ [']']
  | .object ((k, j) :: ms) =>
    '\x7b' :: newLine (level + 1) ++ quoted (k.getD "").toList ++ ':' :: ' ' :: prettyAt (level + 1) j ++
      prettyMembers level ms ++ newLine level ++ ['\x7d']
  | .array [] => ['[', ']']
  | .object [] => ['\x7b', '\x7d']
  | .null => "null".toList
  | .bool true => "true".toList
  | .bool false => "false".toList
  | .number literal => literal
  | .string text => quoted ((text.getD "").toList)

/-- The items behind the first. -/
def prettyItems (level : Nat) : List Json → List Char
  | [] => []
  | j :: js => ',' :: newLine (level + 1) ++ prettyAt (level + 1) j ++ prettyItems level js

/-- The members behind the first. -/
def prettyMembers (level : Nat) : List (Option String × Json) → List Char
  | [] => []
  | (k, j) :: ms =>
    ',' :: newLine (level + 1) ++ quoted (k.getD "").toList ++ ':' :: ' ' :: prettyAt (level + 1) j ++
      prettyMembers level ms

end

/-- The document on lines of its own. -/
def pretty (j : Json) : List Char := prettyAt 0 j

end RunningLights.Json
