import RunningLights.Number.Checked
import RunningLights.Number.Reading
import RunningLights.Toml.Basic

/-!
# Reading settings documents

A document is a list of lines: headers that open tables, and keys with values for the table that is open.  Values may
run over several lines within brackets.  A text that breaks a rule is no document.

* `Toml.parse?` — the entries of a document.
-/

namespace RunningLights.Toml

/-! ### Characters -/

/-- A space or a tab. -/
def isSpace (c : Char) : Bool := c == ' ' || c == '\t'

/-- A character that may stand in a line: the tab, and what is no control character. -/
def isPlain (c : Char) : Bool := c == '\t' || (' ' ≤ c && c ≠ '\x7f')

/-- A character of a key without quotes. -/
def isKeyChar (c : Char) : Bool := c.isAlphanum || c == '_' || c == '-'

def skipSpaces (cs : List Char) : List Char := cs.dropWhile isSpace

/-- What follows a line end. -/
def afterLine? : List Char → Option (List Char)
  | '\n' :: rest => some rest
  | '\r' :: '\n' :: rest => some rest
  | _ => none

/-- What follows a comment, if there is one, up to the end of its line. -/
def skipComment (cs : List Char) : List Char :=
  match cs with
  | '#' :: rest => rest.dropWhile isPlain
  | cs => cs

/-- What follows the end of a line, before which a comment may stand.  The end of the text ends a line as well. -/
def endLine? (cs : List Char) : Option (List Char) :=
  match skipComment (skipSpaces cs) with
  | [] => some []
  | rest => afterLine? rest

/-- Skips spaces, comments and line ends. -/
def skipLines : (fuel : Nat) → List Char → List Char
  | 0, cs => cs
  | fuel + 1, cs =>
    let rest := skipComment (skipSpaces cs)
    match afterLine? rest with
    | some rest => skipLines fuel rest
    | none => rest

/-! ### Texts -/

/-- The value of a hexadecimal digit. -/
def hexDigit? (c : Char) : Option Nat :=
  if c.isDigit then some (c.toNat - '0'.toNat)
  else if 'a' ≤ c ∧ c ≤ 'f' then some (c.toNat - 'a'.toNat + 10)
  else if 'A' ≤ c ∧ c ≤ 'F' then some (c.toNat - 'A'.toNat + 10)
  else none

/-- The character of a code of so many digits, and the rest. -/
def coded? (digits : Nat) (cs : List Char) : Option (Char × List Char) := do
  let ds := cs.take digits
  if ds.length < digits then none
  else
    let values ← ds.mapM hexDigit?
    let n := values.foldl (fun n d => 16 * n + d) 0
    if n.isValidChar then some (Char.ofNat n, cs.drop digits) else none

/-- The character of an escape behind its backslash, and the rest. -/
def escaped? : List Char → Option (Char × List Char)
  | 'b' :: rest => some ('\x08', rest)
  | 't' :: rest => some ('\t', rest)
  | 'n' :: rest => some ('\n', rest)
  | 'f' :: rest => some ('\x0c', rest)
  | 'r' :: rest => some ('\r', rest)
  | '"' :: rest => some ('"', rest)
  | '\\' :: rest => some ('\\', rest)
  | 'u' :: rest => coded? 4 rest
  | 'U' :: rest => coded? 8 rest
  | _ => none

/-- A text in one line up to its closing quote, with escapes if it is `basic`. -/
def lineText? (quote : Char) (basic : Bool) : (fuel : Nat) → (acc : List Char) → List Char →
    Option (String × List Char)
  | 0, _, _ => none
  | _, _, [] => none
  | fuel + 1, acc, c :: rest =>
    if c = quote then some (String.ofList acc.reverse, rest)
    else if basic && c = '\\' then
      match escaped? rest with
      | some (d, rest) => lineText? quote basic fuel (d :: acc) rest
      | none => none
    else if isPlain c then lineText? quote basic fuel (c :: acc) rest
    else none

/-- The number of quotes that begin a text. -/
def countQuotes (quote : Char) (cs : List Char) : Nat := (cs.takeWhile (· == quote)).length

/-- Skips spaces and line ends. -/
def skipBlank : List Char → List Char
  | '\r' :: '\n' :: rest => skipBlank rest
  | c :: rest => if isSpace c || c == '\n' then skipBlank rest else c :: rest
  | [] => []

/-- What follows a backslash that ends a line: the next line that is not empty, without its first spaces. -/
def afterContinuation? (cs : List Char) : Option (List Char) := (afterLine? (skipSpaces cs)).map skipBlank

/-- A text of several lines up to its three closing quotes.  One or two more quotes before those belong to it. -/
def longText? (quote : Char) (basic : Bool) : (fuel : Nat) → (acc : List Char) → List Char →
    Option (String × List Char)
  | 0, _, _ => none
  | _, _, [] => none
  | fuel + 1, acc, c :: rest =>
    if c = quote then
      let n := countQuotes quote (c :: rest)
      if n < 3 then longText? quote basic fuel (c :: acc) rest
      else if n ≤ 5 then
        some (String.ofList ((List.replicate (n - 3) quote ++ acc).reverse), (c :: rest).drop n)
      else none
    else if basic && c = '\\' then
      match escaped? rest with
      | some (d, rest) => longText? quote basic fuel (d :: acc) rest
      | none =>
        match afterContinuation? rest with
        | some rest => longText? quote basic fuel acc rest
        | none => none
    else match afterLine? (c :: rest) with
      | some rest => longText? quote basic fuel ('\n' :: acc) rest
      | none => if isPlain c then longText? quote basic fuel (c :: acc) rest else none

/-- A text in quotes, and the rest.  A line end behind three opening quotes is no part of it. -/
def quoted? (cs : List Char) : Option (String × List Char) :=
  match cs with
  | [] => none
  | quote :: rest =>
    let basic := quote == '"'
    if !(basic || quote == '\'') then none
    else match rest with
      | a :: b :: rest' =>
        if a = quote ∧ b = quote then
          longText? quote basic (rest'.length + 1) [] ((afterLine? rest').getD rest')
        else lineText? quote basic (rest.length + 1) [] rest
      | _ => lineText? quote basic (rest.length + 1) [] rest

/-! ### Keys -/

/-- One part of a key, and the rest. -/
def keyPart? (cs : List Char) : Option (String × List Char) :=
  match cs with
  | '"' :: rest => lineText? '"' true (rest.length + 1) [] rest
  | '\'' :: rest => lineText? '\'' false (rest.length + 1) [] rest
  | cs =>
    let word := cs.takeWhile isKeyChar
    if word.isEmpty then none else some (String.ofList word, cs.dropWhile isKeyChar)

/-- The number of parts that a key may have. -/
def maxParts : Nat := 79

/-- The parts of a dotted key, at most `room` of them, with spaces around each, and the rest. -/
def keyParts? : (room : Nat) → List Char → Option (List String × List Char)
  | 0, _ => none
  | room + 1, cs => do
    let (part, rest) ← keyPart? (skipSpaces cs)
    match skipSpaces rest with
    | '.' :: rest => do
      let (parts, rest) ← keyParts? room rest
      some (part :: parts, rest)
    | rest => some ([part], rest)

/-- A key, and the rest. -/
def key? (cs : List Char) : Option (List String × List Char) := keyParts? maxParts cs

/-! ### Numbers -/

/-- The digits that begin a text, between which single underscores may stand, and the rest. -/
def digits? (isDigit : Char → Bool) : (fuel : Nat) → List Char → Option (List Char × List Char)
  | 0, _ => none
  | fuel + 1, cs =>
    let run := cs.takeWhile isDigit
    let rest := cs.dropWhile isDigit
    if run.isEmpty then none
    else match rest with
      | '_' :: rest => do
        let (more, rest) ← digits? isDigit fuel rest
        some (run ++ more, rest)
      | rest => some (run, rest)

/-- The number of decimal digits, and the rest. -/
def decimals? (cs : List Char) : Option (List Char × List Char) := digits? Char.isDigit (cs.length + 1) cs

/-- The sign of a number, and the rest. -/
def sign (cs : List Char) : Bool × List Char :=
  match cs with
  | '-' :: rest => (true, rest)
  | '+' :: rest => (false, rest)
  | cs => (false, cs)

/-- An integer in another base, behind its two first characters. -/
def based? (base : Nat) (cs : List Char) : Option (Scalar × List Char) := do
  let isDigit (c : Char) : Bool := (hexDigit? c).any (· < base)
  let (ds, rest) ← digits? isDigit (cs.length + 1) cs
  let n ← Number.fit? ((ds.filterMap hexDigit?).foldl (fun n d => base * n + d) 0 : Nat)
  some (.int n, rest)

/-- Whole digits: a zero alone, or digits without a leading zero. -/
def whole? (cs : List Char) : Option (List Char × List Char) := do
  let (ds, rest) ← decimals? cs
  if ds.head? = some '0' ∧ 1 < ds.length then none else some (ds, rest)

/-- The digits behind a point, if there is one. -/
def fraction? (cs : List Char) : Option (List Char × List Char) :=
  match cs with
  | '.' :: rest => decimals? rest
  | cs => some ([], cs)

/-- An exponent, if there is one. -/
def exponent? (cs : List Char) : Option (Option Int × List Char) :=
  let read (cs : List Char) : Option (Option Int × List Char) := do
    let (negative, rest) := sign cs
    let (ds, rest) ← decimals? rest
    let n := Number.digitsValue ds
    some (some (if negative then -(n : Int) else n), rest)
  match cs with
  | 'e' :: rest => read rest
  | 'E' :: rest => read rest
  | cs => some (none, cs)

/-- What is left of a text behind a word that begins it. -/
def afterWord? : List Char → List Char → Option (List Char)
  | [], cs => some cs
  | _, [] => none
  | w :: ws, c :: cs => if w = c then afterWord? ws cs else none

/-- A float that is no digits. -/
def special? (negative : Bool) (cs : List Char) : Option (Scalar × List Char) :=
  match afterWord? ['i', 'n', 'f'] cs with
  | some rest => some (.float (if negative then -(1.0 / 0.0) else 1.0 / 0.0), rest)
  | none => (afterWord? ['n', 'a', 'n'] cs).map fun rest => (.float (0.0 / 0.0), rest)

/-- A decimal integer or a float.  A float beyond the greatest is none. -/
def decimal? (negative : Bool) (cs : List Char) : Option (Scalar × List Char) := do
  let (whole, rest) ← whole? cs
  let (fraction, rest) ← fraction? rest
  let (e, rest) ← exponent? rest
  if fraction.isEmpty ∧ e.isNone then
    let n := Number.digitsValue whole
    let n ← Number.fit? (if negative then -(n : Int) else n)
    some (.int n, rest)
  else
    let x := Number.floatOfScientific (Number.digitsValue (whole ++ fraction)) (e.getD 0 - fraction.length)
    let x := if negative then -x else x
    if x == 1.0 / 0.0 then none else some (.float x, rest)

/-- A number, and the rest. -/
def number? (cs : List Char) : Option (Scalar × List Char) :=
  match cs with
  | '0' :: 'x' :: rest => based? 16 rest
  | '0' :: 'o' :: rest => based? 8 rest
  | '0' :: 'b' :: rest => based? 2 rest
  | cs =>
    let (negative, rest) := sign cs
    (special? negative rest).or (decimal? negative rest)

/-! ### Dates and times -/

/-- The number of so many digits, and the rest. -/
def fixed? (width : Nat) (cs : List Char) : Option (Nat × List Char) := do
  let ds := cs.take width
  if ds.length < width then none
  else
    let n ← Number.natOfDigits? ds
    some (n, cs.drop width)

/-- What is left behind a character. -/
def afterChar? (c : Char) : List Char → Option (List Char)
  | d :: rest => if d = c then some rest else none
  | [] => none

/-- The number of days of a month. -/
def daysOf (year month : Nat) : Nat :=
  match month with
  | 2 => if year % 4 = 0 ∧ (year % 100 ≠ 0 ∨ year % 400 = 0) then 29 else 28
  | 4 | 6 | 9 | 11 => 30
  | _ => 31

/-- What is left behind a date. -/
def afterDate? (cs : List Char) : Option (List Char) := do
  let (year, rest) ← fixed? 4 cs
  let (month, rest) ← fixed? 2 (← afterChar? '-' rest)
  let (day, rest) ← fixed? 2 (← afterChar? '-' rest)
  if 1 ≤ month ∧ month ≤ 12 ∧ 1 ≤ day ∧ day ≤ daysOf year month then some rest else none

/-- What is left behind a time of day. -/
def afterTime? (cs : List Char) : Option (List Char) := do
  let (hour, rest) ← fixed? 2 cs
  let (minute, rest) ← fixed? 2 (← afterChar? ':' rest)
  let (second, rest) ← fixed? 2 (← afterChar? ':' rest)
  if 24 ≤ hour ∨ 60 ≤ minute ∨ 61 ≤ second then none
  else match rest with
    | '.' :: d :: more => some (if d.isDigit then more.dropWhile Char.isDigit else rest)
    | rest => some rest

/-- What is left behind the distance of a time zone. -/
def afterZone? (cs : List Char) : Option (List Char) :=
  match cs with
  | 'Z' :: rest => some rest
  | 'z' :: rest => some rest
  | c :: rest =>
    if c = '+' ∨ c = '-' then do
      let (hour, rest) ← fixed? 2 rest
      let (minute, rest) ← fixed? 2 (← afterChar? ':' rest)
      if 24 ≤ hour ∨ 60 ≤ minute then none else some rest
    else none
  | [] => none

/-- What is left behind a date, a time, or both. -/
def afterMoment? (cs : List Char) : Option (List Char) :=
  match afterDate? cs with
  | none => afterTime? cs
  | some rest =>
    match rest with
    | c :: time =>
      if c = 'T' ∨ c = 't' ∨ c = ' ' then
        match afterTime? time with
        | some rest => some ((afterZone? rest).getD rest)
        | none => some (c :: time)
      else some (c :: time)
    | [] => some []

/-! ### Values -/

/-- The number of brackets that may be open within each other. -/
def maxNesting : Nat := 79

mutual

/-- A value, and the rest. -/
def value? (fuel depth : Nat) (cs : List Char) : Option (Toml × List Char) :=
  match fuel, cs with
  | 0, _ => none
  | _, [] => none
  | fuel + 1, c :: rest =>
    if c = '"' ∨ c = '\'' then (quoted? cs).map fun (s, rest) => (.scalar (.text s), rest)
    else if c = '[' then
      if maxNesting ≤ depth then none
      else (items? fuel (depth + 1) rest).map fun (items, rest) => (.array items, rest)
    else if c = '\x7b' then
      if maxNesting ≤ depth then none
      else (inlineTable? fuel (depth + 1) rest).map fun (t, rest) => (.table .braces t, rest)
    else if c = 't' then (afterWord? "true".toList cs).map fun rest => (.scalar (.bool true), rest)
    else if c = 'f' then (afterWord? "false".toList cs).map fun rest => (.scalar (.bool false), rest)
    else match afterMoment? cs with
      | some rest => some (.moment, rest)
      | none => (number? cs).map fun (n, rest) => (.scalar n, rest)
termination_by structural fuel

/-- The items of an array up to its closing bracket. -/
def items? (fuel depth : Nat) (cs : List Char) : Option (List Toml × List Char) :=
  match fuel with
  | 0 => none
  | fuel + 1 =>
    match skipLines (cs.length + 1) cs with
    | ']' :: rest => some ([], rest)
    | cs => do
      let (v, rest) ← value? fuel depth cs
      match skipLines (rest.length + 1) rest with
      | ']' :: rest => some ([v], rest)
      | ',' :: rest => do
        let (vs, rest) ← items? fuel depth rest
        some (v :: vs, rest)
      | _ => none
termination_by structural fuel

/-- The entries of a table in braces, which stands in one line. -/
def inlineTable? (fuel depth : Nat) (cs : List Char) : Option (Entries × List Char) :=
  match fuel with
  | 0 => none
  | fuel + 1 =>
    match skipSpaces cs with
    | '\x7d' :: rest => some ([], rest)
    | cs => pairs? fuel depth [] cs
termination_by structural fuel

/-- Keys and values, of which there is one at least, up to the closing brace. -/
def pairs? (fuel depth : Nat) (t : Entries) (cs : List Char) : Option (Entries × List Char) :=
  match fuel with
  | 0 => none
  | fuel + 1 => do
    let (path, rest) ← key? cs
    let (v, rest) ← value? fuel depth (skipSpaces (← afterChar? '=' rest))
    let t ← Entries.add? v path t
    match skipSpaces rest with
    | '\x7d' :: rest => some (t, rest)
    | ',' :: rest => pairs? fuel depth t rest
    | _ => none
termination_by structural fuel

end

/-! ### Documents -/

/-- What was read of a document, and the path of the table that is open. -/
structure Draft where
  root : Entries
  path : List String

/-- The header of a table behind its opening bracket. -/
def tableHeader? (d : Draft) (cs : List Char) : Option (Draft × List Char) := do
  let (path, rest) ← key? cs
  let rest ← endLine? (← afterChar? ']' rest)
  let root ← Entries.openTable? path d.root
  some (⟨root, path⟩, rest)

/-- The header of the next table of a list behind its opening brackets. -/
def itemHeader? (d : Draft) (cs : List Char) : Option (Draft × List Char) := do
  let (path, rest) ← key? cs
  let rest ← endLine? (← afterChar? ']' (← afterChar? ']' rest))
  let root ← Entries.openItem? path d.root
  some (⟨root, path⟩, rest)

/-- A key with its value. -/
def pair? (d : Draft) (cs : List Char) : Option (Draft × List Char) := do
  let (path, rest) ← key? cs
  let rest := skipSpaces (← afterChar? '=' rest)
  let (v, rest) ← value? (rest.length + 1) 0 rest
  let rest ← endLine? rest
  let root ← Entries.within? (Entries.add? v path) d.path d.root
  some (⟨root, d.path⟩, rest)

/-- The lines of a document.  Each takes a character at least, so that `fuel` above the length does not run out. -/
def lines? : (fuel : Nat) → Draft → List Char → Option Entries
  | 0, _, _ => none
  | fuel + 1, d, cs =>
    match skipSpaces cs with
    | [] => some d.root
    | '[' :: '[' :: rest =>
      match itemHeader? d rest with
      | some (d, rest) => lines? fuel d rest
      | none => none
    | '[' :: rest =>
      match tableHeader? d rest with
      | some (d, rest) => lines? fuel d rest
      | none => none
    | c :: rest =>
      if c = '#' ∨ c = '\n' ∨ c = '\r' then
        match endLine? (c :: rest) with
        | some rest => lines? fuel d rest
        | none => none
      else match pair? d (c :: rest) with
        | some (d, rest) => lines? fuel d rest
        | none => none

/-- The entries of a document.  A byte order mark in front of it is skipped. -/
def parse? (source : String) : Option Entries :=
  let cs := match source.toList with
    | '\ufeff' :: rest => rest
    | cs => cs
  lines? (cs.length + 1) ⟨[], []⟩ cs

end RunningLights.Toml
