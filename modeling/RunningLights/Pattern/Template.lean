import RunningLights.Expr.Token
import RunningLights.Pattern.Parameter
import RunningLights.Text.Blank

/-!
# Templates

A pattern text has slots, each a name in braces behind a dollar sign, with blanks allowed around the name.
`Template.read` finds them from left to right and `Template.fill` writes the parameters into them.  A dollar sign
that begins no slot is text like any other.
-/

namespace RunningLights

/-- A part of a template. -/
inductive TemplatePart where
  | char (c : Char)
  | slot (name : String)
  deriving Repr, DecidableEq, Inhabited

/-- Why a pattern text cannot be compiled. -/
inductive CompileError where
  | unresolvedParameter (name : String)
  | parse (e : ParseError)
  deriving Inhabited

/-- The wording of a compile error. -/
def CompileError.message : CompileError → String
  | .unresolvedParameter name => s!"no value for parameter '{name}'"
  | .parse e => e.message

namespace Template

/-- The name of the slot whose opening brace has been read, and the text behind its closing brace. -/
def slot? (cs : List Char) : Option (String × List Char) :=
  let cs := Text.trimLeft cs
  let name := cs.takeWhile Token.isNameChar
  if Token.startsWith Token.isNameStart name then
    match Text.trimLeft (cs.dropWhile Token.isNameChar) with
    | '\x7d' :: rest => some (String.ofList name, rest)
    | _ => none
  else none

theorem length_slot {cs rest : List Char} {name : String} (h : slot? cs = some (name, rest)) :
    rest.length < cs.length := by
  unfold slot? at h
  simp only at h
  split at h
  · split at h
    · rename_i r hr
      have h₁ := Token.length_dropWhile_le Text.isBlank ((Text.trimLeft cs).dropWhile Token.isNameChar)
      have h₂ := Token.length_dropWhile_le Token.isNameChar (Text.trimLeft cs)
      have h₃ := Token.length_dropWhile_le Text.isBlank cs
      unfold Text.trimLeft at *
      rw [hr] at h₁
      injection h with h
      injection h with _ h
      subst h
      simp only [List.length_cons] at h₁
      omega
    · cases h
  · cases h

/-- The parts of a text. -/
def read : List Char → List TemplatePart
  | '$' :: '\x7b' :: cs =>
    match h : slot? cs with
    | some (name, rest) =>
      have := length_slot h
      .slot name :: read rest
    | none => .char '$' :: .char '\x7b' :: read cs
  | c :: cs => .char c :: read cs
  | [] => []
termination_by cs => cs.length

/-- The text of a part. -/
def fillPart (ps : Parameters) : TemplatePart → Except CompileError (List Char)
  | .char c => .ok [c]
  | .slot name =>
    match ps.get? name with
    | some v => .ok v.text.toList
    | none => .error (.unresolvedParameter name)

/-- The text of all parts; the first slot without a value is an error. -/
def fill (ps : Parameters) : List TemplatePart → Except CompileError (List Char)
  | [] => .ok []
  | part :: parts => do
    let cs ← fillPart ps part
    let rest ← fill ps parts
    return cs ++ rest

/-- Writes the parameters into the slots of a text. -/
def substitute (text : String) (ps : Parameters) : Except CompileError String := do
  return String.ofList (← fill ps (read text.toList))

end Template

end RunningLights
