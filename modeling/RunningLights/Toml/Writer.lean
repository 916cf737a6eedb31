import RunningLights.Number.Layout
import RunningLights.Toml.Basic

/-!
# Writing settings documents

A document of tables of scalars is written one value a line.  A text is written in the plainest quotes that hold it:
double quotes in one line, then single quotes in one line, then three double quotes, then three single quotes.  If
none holds it as it is, its characters are escaped.

* `Toml.quote` — a text in quotes;
* `Toml.document` — the text of a document.
-/

namespace RunningLights.Toml

/-! ### Texts -/

/-- A control character that no quotes hold as it is. -/
def isHidden (c : Char) : Bool := (c < ' ' && c ≠ '\t' && c ≠ '\n') || c == '\x7f'

/-- The length of the longest run of a character. -/
def longestRun (c : Char) (cs : List Char) : Nat :=
  (cs.foldl (fun (run, best) d => if d = c then (run + 1, max best (run + 1)) else (0, best)) (0, 0)).2

/-- How a text is quoted. -/
inductive Quoting where
  | basic
  | literal
  | longBasic
  | longLiteral
  deriving Repr, DecidableEq, Inhabited

namespace Quoting

/-- The quotes on each side. -/
def delimiter : Quoting → String
  | basic => "\""
  | literal => "'"
  | longBasic => "\"\"\""
  | longLiteral => "'''"

/-- A text may go over several lines. -/
def isLong : Quoting → Bool
  | longBasic | longLiteral => true
  | _ => false

/-- Characters may be escaped. -/
def escapes : Quoting → Bool
  | basic | longBasic => true
  | _ => false

/-- The plainest quoting of a text. -/
def ofChars (cs : List Char) : Quoting :=
  let hidden := cs.any isHidden
  let backslash := cs.contains '\\'
  let lines := cs.contains '\n'
  let double := longestRun '"' cs
  let single := longestRun '\'' cs
  if !hidden && !backslash && double = 0 && !lines then basic
  else if !hidden && single = 0 && !lines then literal
  else if !hidden && !backslash && double ≤ 2 then longBasic
  else if !hidden && single ≤ 2 then longLiteral
  else if lines then longBasic
  else basic

end Quoting

/-- A digit of a code. -/
def codeDigit (n : Nat) : Char := (Nat.digitChar n).toUpper

/-- A character between double quotes that is not one itself. -/
def escapeChar (long : Bool) (c : Char) : List Char :=
  match c with
  | '\x08' => ['\\', 'b']
  | '\t' => ['\\', 't']
  | '\n' => if long then ['\n'] else ['\\', 'n']
  | '\x0c' => ['\\', 'f']
  | '\r' => ['\\', 'r']
  | '\\' => ['\\', '\\']
  | c => if isHidden c then ['\\', 'u', '0', '0', codeDigit (c.toNat / 16), codeDigit (c.toNat % 16)] else [c]

/-- The characters of a text between double quotes.  Between three of them two may stand as they are; `run` of them
have. -/
def escapeChars (long : Bool) : (run : Nat) → List Char → List Char
  | _, [] => []
  | run, c :: cs =>
    if c = '"' then
      if long && run < 2 then c :: escapeChars long (run + 1) cs else '\\' :: '"' :: escapeChars long 0 cs
    else escapeChar long c ++ escapeChars long 0 cs

/-- A text in quotes.  One of several lines begins on a line of its own. -/
def quote (s : String) : String :=
  let cs := s.toList
  let q := Quoting.ofChars cs
  let body := if q.escapes then String.ofList (escapeChars q.isLong 0 cs) else s
  q.delimiter ++ (if q.isLong && cs.contains '\n' then "\n" else "") ++ body ++ q.delimiter

/-! ### Documents -/

/-- The written form of a scalar. -/
def writeScalar : Scalar → String
  | .text s => quote s
  | .int n => toString n.toInt
  | .float x => Number.settingLayout.write x
  | .bool b => if b then "true" else "false"

/-- A table of scalars, and its name. -/
structure Section where
  name : String
  entries : List (String × Scalar)
  deriving Inhabited

/-- The lines of a table under its header. -/
def Section.text (s : Section) : String :=
  s!"[{s.name}]\n" ++ String.join (s.entries.map fun (key, v) => s!"{key} = {writeScalar v}\n")

/-- The tables of a document, with an empty line between them. -/
def document (sections : List Section) : String := "\n".intercalate (sections.map Section.text)

end RunningLights.Toml
