import RunningLights.Expr.Value
import RunningLights.Number.Reading
import RunningLights.Text.Blank

/-!
# Tokens of expressions

`Token.scan` splits a text into numbers, names and operators.

* a number may carry a type suffix, which is dropped, and must not run into a name;
* a name may be a path of members joined by `.` and `->`, and is then one token;
* `===` and `!==` are other spellings of `==` and `!=`.
-/

namespace RunningLights

/-- A lexical token of an expression. -/
inductive Token where
  | number (v : Value)
  | ident (name : String)
  | true
  | false
  | lparen
  | rparen
  | lbracket
  | rbracket
  | comma
  | plus
  | minus
  | star
  | slash
  | percent
  | bang
  | lt
  | gt
  | le
  | ge
  | eqEq
  | notEq
  | andAnd
  | orOr
  deriving Inhabited

/-- Why a text is not an expression. -/
inductive ParseError where
  | unexpectedChar (c : Char) (offset : Nat)
  | invalidNumber (text : String)
  | unexpectedToken (t : Token)
  | notIndexable
  | unexpectedEnd
  | forbiddenIdentifier (name : String)
  | callsForbidden
  | indexingForbidden
  | tooDeep
  deriving Inhabited

namespace Token

/-- The name of a token in messages. -/
def describe : Token → String
  | .number (.int n) => s!"Number(Int({n.toInt}))"
  | .number (.float x) => "Number(Float(" ++ Number.tokenLayout.write x ++ "))"
  | .number (.bool b) => s!"Number(Bool({b}))"
  | .ident name => s!"Ident(\"{name}\")"
  | .true => "True"
  | .false => "False"
  | .lparen => "LParen"
  | .rparen => "RParen"
  | .lbracket => "LBracket"
  | .rbracket => "RBracket"
  | .comma => "Comma"
  | .plus => "Plus"
  | .minus => "Minus"
  | .star => "Star"
  | .slash => "Slash"
  | .percent => "Percent"
  | .bang => "Bang"
  | .lt => "Lt"
  | .gt => "Gt"
  | .le => "Le"
  | .ge => "Ge"
  | .eqEq => "EqEq"
  | .notEq => "NotEq"
  | .andAnd => "AndAnd"
  | .orOr => "OrOr"

/-! ### Characters of names and numbers -/

/-- A character that begins a name: an ASCII letter or the underscore. -/
def isNameStart (c : Char) : Bool := c.isAlpha || c == '_'

/-- A character that continues a name: also a digit. -/
def isNameChar (c : Char) : Bool := c.isAlphanum || c == '_'

/-- A character of the digits of a number. -/
def isNumberChar (c : Char) : Bool := c.isDigit || c == '.'

/-- A letter of a type suffix behind a number. -/
def isSuffixChar (c : Char) : Bool :=
  c == 'u' || c == 'U' || c == 'l' || c == 'L' || c == 'f' || c == 'F'

/-- The text starts with a character of the class. -/
def startsWith (p : Char → Bool) : List Char → Bool
  | c :: _ => p c
  | [] => Bool.false

/-- The text begins a number: a digit, or a point before one. -/
def startsNumber : List Char → Bool
  | '.' :: cs => startsWith Char.isDigit cs
  | c :: _ => c.isDigit
  | [] => Bool.false

/-! ### Single tokens -/

/-- The value of the digits of a number, which is a float if they have a point. -/
def numberValue? (digits : List Char) : Option Value :=
  if digits.contains '.' then (Number.pointLiteral? digits).map .float
  else (Number.fit? (Number.digitsValue digits)).map .int

/-- A number and the text behind it and its suffix. -/
def scanNumber (cs : List Char) : Except ParseError (Token × List Char) :=
  let digits := cs.takeWhile isNumberChar
  let rest := (cs.dropWhile isNumberChar).dropWhile isSuffixChar
  if startsWith isNameChar rest then .error (.invalidNumber (String.ofList digits))
  else match numberValue? digits with
    | some v => .ok (.number v, rest)
    | none => .error (.invalidNumber (String.ofList digits))

/-- The longest path of names at the start of the text, begun already, and the text behind it. -/
def splitPath : List Char → List Char × List Char
  | '-' :: '>' :: c :: cs =>
    if isNameStart c then
      let (path, rest) := splitPath (c :: cs)
      ('-' :: '>' :: path, rest)
    else ([], '-' :: '>' :: c :: cs)
  | '.' :: c :: cs =>
    if isNameStart c then
      let (path, rest) := splitPath (c :: cs)
      ('.' :: path, rest)
    else ([], '.' :: c :: cs)
  | c :: cs =>
    if isNameChar c then
      let (path, rest) := splitPath cs
      (c :: path, rest)
    else ([], c :: cs)
  | [] => ([], [])

/-- The token of a path: the two truth values are words of their own. -/
def ofPath (path : List Char) : Token :=
  let name := String.ofList path
  if name == "true" then .true else if name == "false" then .false else .ident name

/-- The operator or bracket at the start of the text, the longest spelling first, and the text behind it. -/
def scanOperator? : List Char → Option (Token × List Char)
  | '=' :: '=' :: '=' :: cs => some (.eqEq, cs)
  | '!' :: '=' :: '=' :: cs => some (.notEq, cs)
  | '=' :: '=' :: cs => some (.eqEq, cs)
  | '!' :: '=' :: cs => some (.notEq, cs)
  | '<' :: '=' :: cs => some (.le, cs)
  | '>' :: '=' :: cs => some (.ge, cs)
  | '&' :: '&' :: cs => some (.andAnd, cs)
  | '|' :: '|' :: cs => some (.orOr, cs)
  | '<' :: cs => some (.lt, cs)
  | '>' :: cs => some (.gt, cs)
  | '!' :: cs => some (.bang, cs)
  | '+' :: cs => some (.plus, cs)
  | '-' :: cs => some (.minus, cs)
  | '*' :: cs => some (.star, cs)
  | '/' :: cs => some (.slash, cs)
  | '%' :: cs => some (.percent, cs)
  | '(' :: cs => some (.lparen, cs)
  | ')' :: cs => some (.rparen, cs)
  | '[' :: cs => some (.lbracket, cs)
  | ']' :: cs => some (.rbracket, cs)
  | ',' :: cs => some (.comma, cs)
  | _ => none

/-- The token that starts at `c`, which is no blank, and the text behind it; `offset` is the place of `c`. -/
def scanOne (offset : Nat) (c : Char) (cs : List Char) : Except ParseError (Token × List Char) :=
  if startsNumber (c :: cs) then scanNumber (c :: cs)
  else if isNameStart c then
    let (path, rest) := splitPath cs
    .ok (ofPath (c :: path), rest)
  else match scanOperator? (c :: cs) with
    | some found => .ok found
    | none => .error (.unexpectedChar c offset)

/-! ### Every token is at least one character long -/

theorem length_dropWhile_le (p : Char → Bool) (cs : List Char) : (cs.dropWhile p).length ≤ cs.length :=
  (List.dropWhile_suffix p).length_le

theorem length_scanNumber {cs rest : List Char} {t : Token} (hs : startsNumber cs = Bool.true)
    (h : scanNumber cs = .ok (t, rest)) : rest.length < cs.length := by
  have hrest : rest = (cs.dropWhile isNumberChar).dropWhile isSuffixChar := by
    unfold scanNumber at h
    simp only at h
    split at h
    · cases h
    · split at h
      · injection h with h; injection h with _ h; exact h.symm
      · cases h
  cases cs with
  | nil => simp [startsNumber] at hs
  | cons c cs =>
    have hc : isNumberChar c = Bool.true := by
      unfold startsNumber at hs
      unfold isNumberChar
      split at hs
      · rename_i h; injection h with h _; simp [h]
      · rename_i h; injection h with h _; simp [h, hs]
      · cases hs
    have := length_dropWhile_le isSuffixChar (cs.dropWhile isNumberChar)
    have := length_dropWhile_le isNumberChar cs
    simp only [hrest, List.dropWhile_cons, hc, if_true, List.length_cons]
    omega

theorem length_splitPath (cs : List Char) : (splitPath cs).2.length ≤ cs.length := by
  fun_induction splitPath cs <;> simp_all <;> omega

theorem length_scanOperator {cs rest : List Char} {t : Token} (h : scanOperator? cs = some (t, rest)) :
    rest.length < cs.length := by
  unfold scanOperator? at h
  split at h <;> first | (injection h with h; injection h with _ h; subst h; simp; try omega) | cases h

theorem length_scanOne {offset : Nat} {c : Char} {cs rest : List Char} {t : Token}
    (h : scanOne offset c cs = .ok (t, rest)) : rest.length < cs.length + 1 := by
  unfold scanOne at h
  split at h
  · exact length_scanNumber ‹_› h
  · split at h
    · have := length_splitPath cs
      injection h with h
      injection h with _ h
      subst h
      omega
    · split at h
      · rename_i h'
        injection h with h
        subst h
        exact length_scanOperator h'
      · cases h

/-! ### Whole texts -/

/-- The tokens of `cs`, the end of a text of `total` characters. -/
def scanFrom (total : Nat) : List Char → Except ParseError (List Token)
  | [] => .ok []
  | c :: cs =>
    if Text.isBlank c then scanFrom total cs
    else match h : scanOne (total - (cs.length + 1)) c cs with
      | .error e => .error e
      | .ok (t, rest) =>
        have : rest.length < cs.length + 1 := length_scanOne h
        match scanFrom total rest with
        | .error e => .error e
        | .ok ts => .ok (t :: ts)
termination_by cs => cs.length

/-- The tokens of a text. -/
def scan (text : String) : Except ParseError (List Token) :=
  let cs := text.toList
  scanFrom cs.length cs

end Token

/-- The wording of a parse error. -/
def ParseError.message : ParseError → String
  | .unexpectedChar c offset => s!"unexpected character '{c}' at offset {offset}"
  | .invalidNumber text => s!"invalid number literal '{text}'"
  | .unexpectedToken t => s!"unexpected token {t.describe}"
  | .notIndexable => "unexpected token ["
  | .unexpectedEnd => "unexpected end of expression"
  | .forbiddenIdentifier name => s!"identifier '{name}' is not allowed here"
  | .callsForbidden => "function calls are not allowed here"
  | .indexingForbidden => "indexing is not allowed here"
  | .tooDeep => "expression nesting is too deep"

end RunningLights
