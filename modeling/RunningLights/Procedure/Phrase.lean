import RunningLights.Procedure.Split
import RunningLights.Text.Word

/-!
# Phrases of program text

The fixed forms of block heads and statements.  Each recogniser takes a text without blanks around it and returns
the pieces of the form, or nothing if the text has another form.
-/

namespace RunningLights.Procedure

open Text

/-! ### Pieces -/

/-- The text behind a literal it starts with. -/
def after? (literal : String) (cs : List Char) : Option (List Char) := literal.toList.isPrefixOf? cs

/-- The name at the start of the text and the text behind it.  A name starts with an ASCII letter or an underscore
and goes on with word characters of any script. -/
def name? : List Char → Option (List Char × List Char)
  | c :: cs => if Token.isNameStart c then some (c :: cs.takeWhile isWord, cs.dropWhile isWord) else none
  | [] => none

/-- The text behind the blanks it starts with, of which there is one at least. -/
def afterBlanks? (cs : List Char) : Option (List Char) :=
  if Token.startsWith isBlank cs then some (trimLeft cs) else none

/-- The text, if it is not empty. -/
def nonempty? (cs : List Char) : Option (List Char) := if cs.isEmpty then none else some cs

/-- The word of the list at the start of the text, with blanks behind it, and the text behind those. -/
def leadingWord? (words : List String) (cs : List Char) : Option (String × List Char) :=
  let word := String.ofList (cs.takeWhile fun c => !isBlank c)
  if words.contains word then (afterBlanks? (cs.dropWhile fun c => !isBlank c)).map fun rest => (word, rest)
  else none

theorem length_afterBlanks {cs rest : List Char} (h : afterBlanks? cs = some rest) :
    rest.length < cs.length := by
  cases cs with
  | nil => simp [afterBlanks?, Token.startsWith] at h
  | cons c cs =>
    by_cases hc : isBlank c = true
    · simp only [afterBlanks?, Token.startsWith, hc, if_true, trimLeft, List.dropWhile_cons] at h
      injection h with h
      subst h
      have := Token.length_dropWhile_le isBlank cs
      simp only [List.length_cons]
      omega
    · simp [afterBlanks?, Token.startsWith, hc] at h

theorem length_leadingWord {words : List String} {cs rest : List Char} {w : String}
    (h : leadingWord? words cs = some (w, rest)) : rest.length < cs.length := by
  unfold leadingWord? at h
  simp only at h
  split at h
  · obtain ⟨r, hr, heq⟩ := Option.map_eq_some_iff.1 h
    injection heq with _ heq
    subst heq
    have h₁ := length_afterBlanks hr
    have h₂ := Token.length_dropWhile_le (fun c => !isBlank c) cs
    omega
  · cases h

/-- The ways to take words of the list from the start of the text, the one that takes most first, each with the
words taken and the text behind them. -/
def leadingWords (words : List String) (cs : List Char) : List (List String × List Char) :=
  match h : leadingWord? words cs with
  | none => [([], cs)]
  | some (w, rest) =>
    have := length_leadingWord h
    (leadingWords words rest).map (fun (ws, r) => (w :: ws, r)) ++ [([], cs)]
termination_by cs.length

/-- The contents of the bracket groups at the start of the text, and the text behind them and their blanks. -/
def bracketGroups (cs : List Char) : List (List Char) × List Char :=
  match cs with
  | '[' :: behind =>
    match h : behind.dropWhile (· != ']') with
    | [] => ([], cs)
    | _ :: rest =>
      have : (trimLeft rest).length < behind.length + 1 := by
        have h₁ := Token.length_dropWhile_le (· != ']') behind
        have h₂ := Token.length_dropWhile_le isBlank rest
        rw [h, List.length_cons] at h₁
        unfold trimLeft
        omega
      let (groups, rest) := bracketGroups (trimLeft rest)
      (behind.takeWhile (· != ']') :: groups, rest)
  | cs => ([], cs)
termination_by cs.length

/-! ### Types -/

/-- The integer types of a fixed width. -/
def fixedWidthTypes : List String :=
  ["int8_t", "int16_t", "int32_t", "int64_t", "uint8_t", "uint16_t", "uint32_t", "uint64_t"]

/-- The types of variables. -/
def variableTypes : List String :=
  ["int", "bool", "long", "short", "char", "byte", "float", "double", "size_t"] ++ fixedWidthTypes ++ ["unsigned"]

/-- The words before the type of a variable. -/
def variableModifiers : List String := ["static", "const", "constexpr", "volatile", "unsigned", "signed"]

/-- The result types of functions. -/
def resultTypes : List String :=
  ["void", "bool", "int", "long", "float", "double", "byte", "size_t"] ++ fixedWidthTypes ++ ["unsigned"]

/-- The words before the result type of a function. -/
def functionModifiers : List String := ["static", "inline", "virtual", "constexpr"]

/-- The types of loop variables. -/
def counterTypes : List String :=
  ["int", "long", "short", "unsigned", "signed", "size_t", "byte"] ++ fixedWidthTypes

/-! ### Block heads -/

/-- A head of a lambda: its name, its capture list and its parameter list. -/
structure LambdaHead where
  name : List Char
  capture : List Char
  params : List Char
  deriving Repr, DecidableEq

/-- A text between two brackets, the first of which is at the start, and the text behind them. -/
def between? (opening closing : Char) (cs : List Char) : Option (List Char × List Char) :=
  match cs with
  | c :: behind =>
    if c == opening then
      match behind.dropWhile (· != closing) with
      | _ :: rest => some (behind.takeWhile (· != closing), rest)
      | [] => none
    else none
  | [] => none

/-- A character of a result type behind an arrow. -/
def isTypeChar (c : Char) : Bool := isWord c || c == ':' || c == '<' || c == '>'

/-- The end of a lambda head behind its parameters: perhaps a word that it may change what it captured, and perhaps
a result type. -/
def isLambdaTail (cs : List Char) : Bool :=
  let cs := match after? "mutable" (trimLeft cs) with
    | some rest => trimLeft rest
    | none => trimLeft cs
  match after? "->" cs with
  | some rest =>
    let type := trimLeft rest
    Token.startsWith isTypeChar type && (trimLeft (type.dropWhile isTypeChar)).isEmpty
  | none => cs.isEmpty

/-- A lambda that is given a name. -/
def lambdaHead? (cs : List Char) : Option LambdaHead := do
  let cs ← after? "auto" cs
  let cs ← afterBlanks? cs
  let (name, cs) ← name? cs
  let cs ← after? "=" (trimLeft cs)
  let (capture, cs) ← between? '[' ']' (trimLeft cs)
  let (params, cs) ← between? '(' ')' (trimLeft cs)
  if isLambdaTail cs then some ⟨name, capture, params⟩ else none

/-- A head of a function: its name, perhaps qualified, and its parameter list. -/
structure FunctionHead where
  name : List Char
  params : List Char
  deriving Repr, DecidableEq

/-- The texts that may follow the result type at the start of the text. -/
def afterResultType (cs : List Char) : List (List Char) :=
  let word := cs.takeWhile isAsciiWord
  let rest := cs.dropWhile isAsciiWord
  if resultTypes.contains (String.ofList word) then
    if word == "unsigned".toList then
      match (afterBlanks? rest).bind (after? "int") with
      | some longer => [longer, rest]
      | none => [rest]
    else [rest]
  else []

/-- The text behind the blanks between a type and a name, among which may stand one mark of a pointer or a
reference, with a blank behind it. -/
def afterTypeGap? (cs : List Char) : Option (List Char) :=
  match trimLeft cs with
  | '*' :: rest => afterBlanks? rest
  | '&' :: rest => afterBlanks? rest
  | _ => afterBlanks? cs

/-- The end of a function head behind its parameters. -/
def isFunctionTail (cs : List Char) : Bool :=
  let cs := match after? "const" (trimLeft cs) with
    | some rest => trimLeft rest
    | none => trimLeft cs
  let cs := match after? "override" cs with
    | some rest => trimLeft rest
    | none => cs
  cs.isEmpty

/-- A character of a function name, which may be qualified. -/
def isQualifiedChar (c : Char) : Bool := isWord c || c == ':'

/-- A name with a parameter list that has no inner parentheses, and the end of a function head. -/
def namedParams? (cs : List Char) : Option FunctionHead := do
  if !Token.startsWith Token.isNameStart cs then none
  let name := cs.takeWhile isQualifiedChar
  let (params, rest) ← between? '(' ')' (trimLeft (cs.dropWhile isQualifiedChar))
  if params.contains '(' then none
  else if isFunctionTail rest then some ⟨name, params⟩ else none

/-- A function with a result type. -/
def functionHead? (cs : List Char) : Option FunctionHead :=
  (leadingWords functionModifiers cs).findSome? fun (_, cs) =>
    (afterResultType cs).findSome? fun cs => (afterTypeGap? cs).bind namedParams?

/-! ### Statements -/

/-- A declaration: the words before its type, the type, and the declared names. -/
structure Declaration where
  modifiers : List String
  type : String
  declarators : List Char
  deriving Repr, DecidableEq

def declaration? (cs : List Char) : Option Declaration :=
  (leadingWords variableModifiers cs).findSome? fun (modifiers, cs) => do
    let (type, cs) ← leadingWord? variableTypes cs
    let declarators ← nonempty? cs
    return ⟨modifiers, type, declarators⟩

/-- A declared name with its sizes and its first value. -/
structure Declarator where
  name : List Char
  sizes : List (List Char)
  value : Option (List Char)
  deriving Repr, DecidableEq

def declarator? (cs : List Char) : Option Declarator := do
  let (name, cs) ← name? cs
  let (sizes, cs) := bracketGroups (trimLeft cs)
  match cs with
  | [] => some ⟨name, sizes, none⟩
  | '=' :: cs => do
    let value ← nonempty? (trimLeft cs)
    return ⟨name, sizes, some value⟩
  | _ => none

/-- A name that is counted up or down: the name, and whether it goes up. -/
def counting? (cs : List Char) : Option (List Char × Bool) :=
  let sign? (cs : List Char) : Option (Bool × List Char) :=
    match cs with
    | '+' :: '+' :: rest => some (true, rest)
    | '-' :: '-' :: rest => some (false, rest)
    | _ => none
  match sign? cs with
  | some (up, rest) =>
    match name? (trimLeft rest) with
    | some (name, []) => some (name, up)
    | _ => none
  | none => do
    let (name, rest) ← name? cs
    match sign? (trimLeft rest) with
    | some (up, []) => some (name, up)
    | _ => none

/-- An assignment: its target, the texts of the indices, the operator and the text of the value. -/
structure Assignment where
  target : List Char
  indices : List (List Char)
  operator : Option Char
  value : List Char
  deriving Repr, DecidableEq

/-- The operator of an assignment, by the sign that it carries, and the text behind it. -/
def assignOperator? : List Char → Option (Option Char × List Char)
  | '=' :: rest => some (none, rest)
  | c :: '=' :: rest => if ['+', '-', '*', '/', '%'].contains c then some (some c, rest) else none
  | _ => none

def assignment? (cs : List Char) : Option Assignment := do
  let (target, cs) ← name? cs
  let (indices, cs) := bracketGroups (trimLeft cs)
  let (operator, cs) ← assignOperator? cs
  let value ← nonempty? (trimLeft cs)
  return ⟨target, indices, operator, value⟩

/-! ### Headers of counted loops -/

/-- A loop variable and the text of its first value. -/
def loopInit? (cs : List Char) : Option (List Char × List Char) :=
  (leadingWords counterTypes cs).findSome? fun (_, cs) => do
    let (name, cs) ← name? cs
    let cs ← after? "=" (trimLeft cs)
    let value ← nonempty? (trimLeft cs)
    return (name, value)

/-- The comparison that keeps a loop running. -/
structure LoopTest where
  name : List Char
  /-- The variable has to be below the bound, or above it. -/
  below : Bool
  inclusive : Bool
  bound : List Char
  deriving Repr, DecidableEq

/-- A comparison sign, by whether it means below and whether the bound is included, with a text behind it. -/
def comparison? : List Char → Option (Bool × Bool × List Char)
  | '<' :: '=' :: rest =>
    match nonempty? (trimLeft rest) with
    | some bound => some (true, true, bound)
    | none => some (true, false, '=' :: rest)
  | '>' :: '=' :: rest =>
    match nonempty? (trimLeft rest) with
    | some bound => some (false, true, bound)
    | none => some (false, false, '=' :: rest)
  | '<' :: rest => (nonempty? (trimLeft rest)).map fun bound => (true, false, bound)
  | '>' :: rest => (nonempty? (trimLeft rest)).map fun bound => (false, false, bound)
  | _ => none

def loopTest? (cs : List Char) : Option LoopTest := do
  let (name, cs) ← name? cs
  let (below, inclusive, bound) ← comparison? (trimLeft cs)
  return ⟨name, below, inclusive, bound⟩

/-- The step of a loop: the variable, whether it goes up, and the text of the amount, which is one if absent. -/
structure LoopStep where
  name : List Char
  up : Bool
  amount : Option (List Char)
  deriving Repr, DecidableEq

/-- A step by a compound assignment. -/
def shortStep? (cs : List Char) : Option LoopStep := do
  let (name, cs) ← name? cs
  match trimLeft cs with
  | '+' :: '=' :: rest => (nonempty? (trimLeft rest)).map fun amount => ⟨name, true, some amount⟩
  | '-' :: '=' :: rest => (nonempty? (trimLeft rest)).map fun amount => ⟨name, false, some amount⟩
  | _ => none

/-- A step by an assignment of a sum or a difference, with the name of the first term. -/
def longStep? (cs : List Char) : Option (LoopStep × List Char) := do
  let (name, cs) ← name? cs
  let cs ← after? "=" (trimLeft cs)
  let (source, cs) ← name? (trimLeft cs)
  match trimLeft cs with
  | '+' :: rest => (nonempty? (trimLeft rest)).map fun amount => (⟨name, true, some amount⟩, source)
  | '-' :: rest => (nonempty? (trimLeft rest)).map fun amount => (⟨name, false, some amount⟩, source)
  | _ => none

/-- The step of the loop variable `var`.  The first form that the text has must be about `var`. -/
def loopStep? (var cs : List Char) : Option LoopStep :=
  match counting? cs with
  | some (name, up) => if name = var then some ⟨name, up, none⟩ else none
  | none =>
    match shortStep? cs with
    | some step => if step.name = var then some step else none
    | none =>
      match longStep? cs with
      | some (step, source) => if step.name = var ∧ source = var then some step else none
      | none => none

end RunningLights.Procedure
