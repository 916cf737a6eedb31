import RunningLights.Text.Ranges

/-!
# Blank characters

The characters with the white space property: the ASCII blanks, the next-line control, and the spaces and line
separators of other scripts.
-/

namespace RunningLights.Text

/-- The blanks beyond ASCII. -/
def wideBlanks : Ranges := #[
  (0x85, 0x85), (0xA0, 0xA0), (0x1680, 0x1680), (0x2000, 0x200A), (0x2028, 0x2029), (0x202F, 0x202F),
  (0x205F, 0x205F), (0x3000, 0x3000)]

/-- A blank within ASCII: the space and the controls from tab to carriage return. -/
def isAsciiBlank (c : Char) : Bool := c == ' ' || ('\t' ≤ c && c ≤ '\r')

/-- The character is white space. -/
def isBlank (c : Char) : Bool :=
  if c.toNat < 128 then isAsciiBlank c else wideBlanks.contains c

/-- The text without the blanks that begin it. -/
def trimLeft (cs : List Char) : List Char := cs.dropWhile isBlank

/-- The text without the blanks that end it. -/
def trimRight (cs : List Char) : List Char := (cs.reverse.dropWhile isBlank).reverse

/-- The text without the blanks around it. -/
def trim (cs : List Char) : List Char := trimRight (trimLeft cs)

end RunningLights.Text
