import RunningLights.Expr.Token
import RunningLights.Text.Blank

/-!
# Splitting program text

Program text is divided at separators outside of brackets, and into the name and the arguments of a call.
-/

namespace RunningLights.Procedure

/-- How a character changes the depth of brackets of all kinds. -/
def bracketStep (c : Char) : Int :=
  if c == '(' || c == '[' || c == '\x7b' then 1
  else if c == ')' || c == ']' || c == '\x7d' then -1
  else 0

/-- The parts between the separators at depth zero or below; `depth` is that of the first character. -/
def splitAtDepth (separator : Char) (depth : Int) : List Char → List (List Char)
  | [] => [[]]
  | c :: cs =>
    if c == separator && depth ≤ 0 then [] :: splitAtDepth separator depth cs
    else match splitAtDepth separator (depth + bracketStep c) cs with
      | [] => [[c]]
      | part :: parts => (c :: part) :: parts

/-- The parts between the separators outside of brackets; a blank text has none. -/
def splitTop (separator : Char) (cs : List Char) : List (List Char) :=
  if (Text.trim cs).isEmpty then [] else splitAtDepth separator 0 cs

/-- The text up to the parenthesis that closes the one read before, at `depth` inner ones, and the text behind it. -/
def splitGroup : (depth : Nat) → List Char → Option (List Char × List Char)
  | _, [] => none
  | 0, ')' :: cs => some ([], cs)
  | depth, c :: cs =>
    let depth := if c == '(' then depth + 1 else if c == ')' then depth - 1 else depth
    (splitGroup depth cs).map fun (inner, rest) => (c :: inner, rest)

/-- A character of the name of a called function, which may be qualified. -/
def isCalleeChar (c : Char) : Bool := Token.isNameChar c || c == ':'

/-- The name and the argument text of a call whose parenthesis closes at the very end. -/
def splitCall? (cs : List Char) : Option (List Char × List Char) :=
  let name := Text.trimRight (cs.takeWhile (· != '('))
  match cs.dropWhile (· != '(') with
  | [] => none
  | _ :: behind =>
    if Token.startsWith Token.isNameStart name && name.all isCalleeChar then
      match splitGroup 0 behind with
      | some (inner, []) => some (name, inner)
      | _ => none
    else none

end RunningLights.Procedure
