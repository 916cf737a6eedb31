import RunningLights.Text.Blank

/-!
# Comments

`blankComments` writes spaces over comments and directive lines and keeps everything else in its place.  Quoted text
is copied as it is; a quote that is not closed ends with its line.

* `length_blankComments` — no character moves.
-/

namespace RunningLights.Procedure

/-- Where in the text a character stands. -/
inductive CommentState where
  /-- Outside of comments and quotes; `fresh` if only blanks precede it on its line. -/
  | code (fresh : Bool)
  /-- In a comment that ends with its line. -/
  | line
  /-- In a comment that ends with a mark of its own. -/
  | block (fresh : Bool)
  /-- Between two quotes. -/
  | quoted (quote : Char)
  /-- Behind a backslash between two quotes. -/
  | escaped (quote : Char)
  deriving Repr, DecidableEq

/-- Blanks the comments of a text that starts in the given state. -/
def blankFrom : CommentState → List Char → List Char
  | _, [] => []
  | .line, '\n' :: cs => '\n' :: blankFrom (.code true) cs
  | .line, _ :: cs => ' ' :: blankFrom .line cs
  | .block fresh, '*' :: '/' :: cs => ' ' :: ' ' :: blankFrom (.code fresh) cs
  | .block fresh, c :: cs => (if c == '\n' then '\n' else ' ') :: blankFrom (.block fresh) cs
  | .escaped q, c :: cs => c :: blankFrom (.quoted q) cs
  | .quoted q, c :: cs =>
    if c == q then c :: blankFrom (.code false) cs
    else if c == '\n' then '\n' :: blankFrom (.code true) cs
    else if c == '\\' then c :: blankFrom (.escaped q) cs
    else c :: blankFrom (.quoted q) cs
  | .code _, '/' :: '/' :: cs => ' ' :: ' ' :: blankFrom .line cs
  | .code fresh, '/' :: '*' :: cs => ' ' :: ' ' :: blankFrom (.block fresh) cs
  | .code fresh, c :: cs =>
    if fresh && c == '#' then ' ' :: blankFrom .line cs
    else if c == '"' || c == '\'' then c :: blankFrom (.quoted c) cs
    else if c == '\n' then c :: blankFrom (.code true) cs
    else c :: blankFrom (.code (fresh && Text.isBlank c)) cs

/-- The text with spaces in the place of comments and directive lines. -/
def blankComments (cs : List Char) : List Char := blankFrom (.code true) cs

theorem length_blankComments (cs : List Char) : (blankComments cs).length = cs.length := by
  unfold blankComments
  generalize CommentState.code true = s
  fun_induction blankFrom s cs <;> simp_all

end RunningLights.Procedure
