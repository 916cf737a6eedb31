import RunningLights.Number.Checked
import RunningLights.Number.Layout
import RunningLights.Number.Reading
import RunningLights.Script.Fault
import RunningLights.Text.Blank

/-!
# The lexemes of scripts

A script text is cut into numbers, texts, names and marks; blanks and comments separate them.  Names are ASCII.  What
is no lexeme becomes one that says why, so that a reader meets it in its place.

* `Lexeme.scan` — the lexemes of a text with their places, the end last.
-/

namespace RunningLights.Script

/-- A piece of a script text. -/
inductive Lexeme where
  | int (n : Int64)
  | float (x : Float)
  | str (s : String)
  | name (s : String)
  /-- A word that is kept out of use as a name. -/
  | reserved (s : String)
  /-- A keyword, an operator or a bracket. -/
  | mark (s : String)
  | invalid (f : SyntaxFault)
  | finish
  deriving Inhabited

/-- A lexeme and its place. -/
structure Placed where
  lexeme : Lexeme
  place : Position
  deriving Inhabited

namespace Lexeme

/-! ### Words -/

def keywords : List String := [
  "true", "false", "let", "const", "if", "else", "switch", "do", "while", "until", "loop", "for", "in", "continue",
  "break", "fn", "private", "import", "export", "as", "return", "throw", "try", "catch"]

/-- The words that no variable may have for a name. -/
def reservedWords : List String := [
  "async", "await", "case", "default", "go", "goto", "is", "match", "module", "new", "nil", "null", "package",
  "protected", "public", "shared", "spawn", "static", "super", "sync", "thread", "use", "var", "void", "with",
  "yield", "this"]

/-- The reserved words that are functions. -/
def callableWords : List String :=
  ["print", "debug", "type_of", "Fn", "call", "curry", "is_def_fn", "is_def_var", "is_shared"]

/-- The words that scripts may not use at all. -/
def disabledWords : List String := ["eval"]

def isNameStart (c : Char) : Bool := c.isAlpha || c == '_'

def isNameChar (c : Char) : Bool := c.isAlphanum || c == '_'

/-- The lexeme of a word.  A name has a letter before its first digit. -/
def ofWord (w : List Char) : Lexeme :=
  let s := String.ofList w
  if keywords.contains s then .mark s
  else if disabledWords.contains s then .invalid (.disabled s)
  else if reservedWords.contains s || callableWords.contains s then .reserved s
  else if w = ['_'] then .mark s
  else if (w.dropWhile (· == '_')).head?.any Char.isAlpha then .name s
  else .invalid (.badName s)

/-! ### Marks -/

/-- The marks, the longer before those that begin them. -/
def marks : List String := [
  "...", "..=", "===", "!==", "<<=", ">>=", "**=", "::<",
  "..", "==", "=>", "!=", "<<", "<=", "<-", "<|", ">>", ">=", "&&", "&=", "||", "|=", "|>", "**", "*=", "*)",
  "+=", "++", "-=", "--", "->", "/=", "%=", "^=", "::", ":=", ":;", "??", "?.", "?[", "#\x7b", "#!", "(*",
  ".", "=", "!", "<", ">", "&", "|", "*", "+", "-", "/", "%", "^", ":", "?", "#", "(", ")", "[", "]", "\x7b",
  "\x7d", ";", ",", "~", "@", "$"]

/-- The marks without a meaning. -/
def reservedMarks : List String := [
  "...", "===", "!==", "::<", "<-", "<|", "|>", "*)", "++", "--", "->", ":=", ":;", "#!", "(*", "?", "#", "~", "@",
  "$"]

/-- What is left of a text behind a word that begins it. -/
def after? : List Char → List Char → Option (List Char)
  | [], text => some text
  | _, [] => none
  | w :: ws, c :: cs => if w = c then after? ws cs else none

/-- The mark that begins a text, and the rest. -/
def mark? (text : List Char) : Option (String × List Char) :=
  marks.findSome? fun m => (after? m.toList text).map fun rest => (m, rest)

/-! ### Numbers -/

/-- The rest of a decimal number, without its separators; `acc` is what was read, the last first.  A point belongs
to the number unless a name, another point or a separator follows it, and an exponent if a digit or a sign does. -/
def decimal (acc : List Char) : List Char → List Char × List Char
  | [] => (acc.reverse, [])
  | c :: rest =>
    let next := rest.head?.getD '\x00'
    if c.isDigit then decimal (c :: acc) rest
    else if c = '_' then decimal acc rest
    else if c = '.' then
      if next.isDigit then decimal ('.' :: acc) rest
      else if next = '.' ∨ isNameStart next then (acc.reverse, c :: rest)
      else decimal ('0' :: '.' :: acc) rest
    else if c = 'e' then
      if next.isDigit ∨ next = '+' ∨ next = '-' then decimal ('e' :: acc) rest else (acc.reverse, c :: rest)
    else if (c = '+' ∨ c = '-') ∧ acc.head? = some 'e' then decimal (c :: acc) rest
    else (acc.reverse, c :: rest)

/-- The lexeme of a decimal number.  An integer that is too large is a float. -/
def ofDecimal (ds : List Char) : Lexeme :=
  let s := String.ofList ds
  let word := (Number.natOfDigits? ds).bind fun n => Number.fit? (n : Int)
  match word, Number.floatOfText? s with
  | some n, _ => .int n
  | none, some x => .float x
  | none, none => .invalid (.badNumber s)

/-- The value of a digit, in any base. -/
def digitValue (c : Char) : Nat :=
  if c.isDigit then c.toNat - '0'.toNat
  else if 'a' ≤ c ∧ c ≤ 'z' then c.toNat - 'a'.toNat + 10
  else if 'A' ≤ c ∧ c ≤ 'Z' then c.toNat - 'A'.toNat + 10
  else 36

/-- The base that a letter behind a leading zero stands for. -/
def base? (c : Char) : Option Nat :=
  match c.toLower with
  | 'x' => some 16
  | 'o' => some 8
  | 'b' => some 2
  | _ => none

/-- The lexeme of a number in another base, which is the value of a 64-bit word. -/
def ofBase (base : Nat) (ds : List Char) : Lexeme :=
  let n := ds.foldl (fun n c => base * n + digitValue c) 0
  if ds.isEmpty || Number.wordBound ≤ n then .invalid (.badNumber (String.ofList ds)) else .int (Int64.ofNat n)

/-- The number that begins a text, and the rest. -/
def number (text : List Char) : Lexeme × List Char :=
  let plain (cs : List Char) : Lexeme × List Char :=
    let (ds, rest) := decimal [] cs
    (ofDecimal ds, rest)
  match text with
  | '0' :: c :: rest =>
    match base? c with
    | some base =>
      let inBase (d : Char) : Bool := d == '_' || digitValue d < base
      (ofBase base ((rest.takeWhile inBase).filter (· ≠ '_')), rest.dropWhile inBase)
    | none => plain text
  | _ => plain text

/-! ### Texts -/

/-- The character of an escape, and the digits of its code if it has one. -/
def escape? (c : Char) : Option (Char ⊕ Nat) :=
  match c with
  | 't' => some (.inl '\t')
  | 'n' => some (.inl '\n')
  | 'r' => some (.inl '\r')
  | 'x' => some (.inr 2)
  | 'u' => some (.inr 4)
  | 'U' => some (.inr 8)
  | '\\' => some (.inl '\\')
  | '"' => some (.inl '"')
  | '\'' => some (.inl '\'')
  | _ => none

/-- How the characters of a text are being read. -/
inductive TextMode where
  | plain
  /-- Behind a backslash. -/
  | escape
  /-- So many digits of a code are missing. -/
  | code (left value : Nat)
  /-- The blanks that begin a continued line. -/
  | continued

/-- The characters up to the closing quote, and the rest behind it. -/
def quoted (quote : Char) : TextMode → (acc : List Char) → List Char → Except SyntaxFault (String × List Char)
  | _, _, [] => .error .openString
  | .plain, acc, c :: rest =>
    if c = quote then .ok (String.ofList acc.reverse, rest)
    else if c = '\\' then quoted quote .escape acc rest
    else if c = '\n' then .error .openString
    else quoted quote .plain (c :: acc) rest
  | .escape, acc, c :: rest =>
    match escape? c with
    | some (.inl d) => quoted quote .plain (d :: acc) rest
    | some (.inr digits) => quoted quote (.code digits 0) acc rest
    | none =>
      if c = '\n' then quoted quote .continued acc rest
      else .error (.badEscape (String.ofList ['\\', c]))
  | .code left value, acc, c :: rest =>
    if 16 ≤ digitValue c then .error (.badEscape (String.ofList [c]))
    else
      let value := 16 * value + digitValue c
      if 1 < left then quoted quote (.code (left - 1) value) acc rest
      else if value.isValidChar then quoted quote .plain (Char.ofNat value :: acc) rest
      else .error (.badEscape (String.ofList [c]))
  | .continued, acc, c :: rest =>
    if Text.isBlank c && c ≠ '\n' then quoted quote .continued acc rest
    else if c = quote then .ok (String.ofList acc.reverse, rest)
    else if c = '\\' then quoted quote .escape acc rest
    else if c = '\n' then .error .openString
    else quoted quote .plain (c :: acc) rest

/-- The text up to the closing quote, across lines and without escapes, and the rest. -/
def verbatim (acc : List Char) : List Char → Except SyntaxFault (String × List Char)
  | [] => .error .openString
  | '\x60' :: rest => .ok (String.ofList acc.reverse, rest)
  | c :: rest => verbatim (c :: acc) rest

/-! ### Comments -/

/-- What is left behind a comment that ends with its line. -/
def skipLine (text : List Char) : List Char := text.dropWhile (· ≠ '\n')

/-- What is left behind a comment that may hold others. -/
def skipComment : (depth : Nat) → List Char → List Char
  | 0, text => text
  | _, [] => []
  | depth + 1, '*' :: '/' :: rest => skipComment depth rest
  | depth + 1, '/' :: '*' :: rest => skipComment (depth + 2) rest
  | depth + 1, _ :: rest => skipComment (depth + 1) rest

/-! ### Texts as lexemes -/

/-- A text that was read, or the end of reading. -/
def ofQuoted : Except SyntaxFault (String × List Char) → Lexeme × List Char
  | .ok (s, rest) => (.str s, rest)
  | .error f => (.invalid f, [])

/-- A character between single quotes. -/
def ofCharText (r : Except SyntaxFault (String × List Char)) : Lexeme × List Char :=
  match r with
  | .ok (s, rest) => if s.length = 1 then (.str s, rest) else (.invalid (.badChar s), rest)
  | .error f => (.invalid f, [])

/-- The lexeme that begins a text without a blank or a comment before it, and the rest. -/
def first (c : Char) (rest : List Char) : Lexeme × List Char :=
  let text := c :: rest
  if c.isDigit then number text
  else if isNameStart c then (ofWord (text.takeWhile isNameChar), text.dropWhile isNameChar)
  else if c = '"' then ofQuoted (quoted '"' .plain [] rest)
  else if c = '\'' then ofCharText (quoted '\'' .plain [] rest)
  else if c = '\x60' then ofQuoted (verbatim [] rest)
  else
    match mark? text with
    | some (m, rest) => (if reservedMarks.contains m then .invalid (.reservedMark m) else .mark m, rest)
    | none => (.invalid (.unexpected (String.ofList [c])), rest)

/-- The place behind the part of a text that is gone. -/
def placeBehind (p : Position) (text rest : List Char) : Position :=
  (text.take (text.length - rest.length)).foldl Position.next p

/-- The lexemes of a text.  Each takes a character at least, so that `fuel` above the length does not run out. -/
def scanFrom : (fuel : Nat) → Position → List Char → List Placed
  | 0, p, _ => [⟨.finish, p⟩]
  | _, p, [] => [⟨.finish, p⟩]
  | fuel + 1, p, text@('/' :: '/' :: rest) =>
    let rest := skipLine rest
    scanFrom fuel (placeBehind p text rest) rest
  | fuel + 1, p, text@('/' :: '*' :: rest) =>
    let rest := skipComment 1 rest
    scanFrom fuel (placeBehind p text rest) rest
  | fuel + 1, p, c :: rest =>
    if Text.isBlank c then scanFrom fuel (p.next c) rest
    else
      let (l, left) := first c rest
      ⟨l, p⟩ :: scanFrom fuel (placeBehind p (c :: rest) left) left

/-- The lexemes of a script. -/
def scan (source : String) : List Placed :=
  let text := source.toList
  scanFrom (text.length + 1) .start text

/-- The lexeme as it is quoted in errors. -/
def shown : Lexeme → String
  | int n => toString n.toInt
  | float x => Number.tokenLayout.write x
  | str s => "\"" ++ s ++ "\""
  | name s => s
  | reserved s => s
  | mark s => s
  | invalid f => f.message
  | finish => "\x7bEOF\x7d"

end Lexeme

end RunningLights.Script
