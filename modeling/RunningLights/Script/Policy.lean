import RunningLights.Script.Violation
import RunningLights.Text.Blank
import RunningLights.Text.Word

/-!
# What scripts may not contain

Before a script is run its text is searched for phrases that are not allowed.  A phrase is a sequence of pieces,
which is looked for wherever its anchor holds; each rule reports the first place that its phrase is found at.  The
text is searched as it is, with its comments and strings.

* `Policy.offset?` — the first place of a phrase;
* `Policy.violations` — what all rules report, in their order.
-/

namespace RunningLights.Script

/-- A piece of a phrase. -/
inductive Piece where
  /-- One of some words. -/
  | oneOf (words : List String)
  | char (c : Char)
  /-- A character that may be missing. -/
  | optional (c : Char)
  /-- White space, if there is any. -/
  | blanks
  /-- The end of a word. -/
  | edge
  deriving Repr, DecidableEq

/-- Where a phrase may begin. -/
inductive Anchor where
  | word
  | line
  deriving Repr, DecidableEq

/-- A phrase that is not allowed. -/
structure Rule where
  anchor : Anchor
  phrase : List Piece
  message : String

namespace Piece

/-- What is left of a text behind a word that begins it. -/
def skipWord : List Char → List Char → Option (List Char)
  | [], text => some text
  | _, [] => none
  | w :: ws, c :: cs => if w = c then skipWord ws cs else none

/-- What is left of a text behind a piece that begins it. -/
def skip : Piece → List Char → Option (List Char)
  | oneOf words, text => words.findSome? fun w => skipWord w.toList text
  | char c, text =>
    match text with
    | d :: rest => if d = c then some rest else none
    | [] => none
  | optional c, text =>
    match text with
    | d :: rest => if d = c then some rest else some (d :: rest)
    | [] => some []
  | blanks, text => some (text.dropWhile Text.isBlank)
  | edge, text => if Text.startsWord text then none else some text

/-- The text begins with the pieces. -/
def begin : List Piece → List Char → Bool
  | [], _ => true
  | p :: ps, text =>
    match p.skip text with
    | some rest => begin ps rest
    | none => false

end Piece

/-- A phrase may begin behind the character, or at the start of the text. -/
def Anchor.holds : Anchor → (before : Option Char) → Bool
  | _, none => true
  | .word, some c => !Text.isWord c
  | .line, some c => c == '\n'

namespace Policy

/-- The number of characters before the first place that a phrase is found at. -/
def offset? (anchor : Anchor) (phrase : List Piece) : (before : Option Char) → List Char → Option Nat
  | before, [] => if anchor.holds before && Piece.begin phrase [] then some 0 else none
  | before, c :: rest =>
    if anchor.holds before && Piece.begin phrase (c :: rest) then some 0
    else (offset? anchor phrase (some c) rest).map (· + 1)

/-- The phrases that are never allowed. -/
def rules : List Rule := [
  ⟨.word, [.oneOf ["while"], .blanks, .optional '(', .blanks, .oneOf ["true"], .edge],
    "Infinite while(true) loop detected"⟩,
  ⟨.word, [.oneOf ["for"], .blanks, .char '(', .blanks, .char ';', .blanks, .char ';', .blanks, .char ')'],
    "Infinite for(;;) loop detected"⟩,
  ⟨.word, [.oneOf ["eval"], .blanks, .char '('], "eval() is not allowed"⟩,
  ⟨.word, [.oneOf ["Fn", "call", "curry"], .blanks, .char '('], "Dynamic function calls are not allowed"⟩,
  ⟨.line, [.blanks, .oneOf ["import", "export"], .edge], "Module import/export is not allowed"⟩,
  ⟨.word, [.oneOf ["spawn", "thread", "setTimeout", "setInterval"], .edge],
    "Scheduling primitives are not allowed"⟩,
  ⟨.word, [.oneOf ["document", "window", "global", "process"], .blanks, .char '.'],
    "Host environment access is not allowed"⟩]

/-- The start of a loop without a condition. -/
def bareLoop : List Piece := [.oneOf ["loop"], .blanks, .char '\x7b']

/-- The word that ends a loop from within. -/
def breakWord : List Piece := [.oneOf ["break"], .edge]

/-- The violation at the first place of a phrase. -/
def violation? (text : List Char) (r : Rule) : Option Violation :=
  (offset? r.anchor r.phrase none text).map fun n => .atPlace r.message (.after (text.take n))

/-- A loop without a condition is a violation if nothing in the text ends a loop. -/
def loopViolation? (text : List Char) : Option Violation :=
  if (offset? .word breakWord none text).isSome then none
  else violation? text ⟨.word, bareLoop, "Infinite loop without break detected"⟩

/-- All violations of a script. -/
def violations (source : String) : List Violation :=
  let text := source.toList
  if text.all Text.isBlank then [.general "Code cannot be empty"]
  else rules.filterMap (violation? text) ++ (loopViolation? text).toList

end Policy

end RunningLights.Script
