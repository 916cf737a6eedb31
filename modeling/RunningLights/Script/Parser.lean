import RunningLights.Script.Lexeme
import RunningLights.Script.Tree

/-!
# Reading scripts

Scripts are read from left to right, and the first error ends reading.  The reader knows the variables that are in
scope, so that it refuses a script that changes a constant of its own.

Every recursive call is one level deeper into the text or has consumed a lexeme, so `fuel` in proportion to the number
of lexemes does not run out.

* `ScriptTree.parse` — the tree of a script.
-/

namespace RunningLights.Script

/-- What the reader keeps: the lexemes that are left, the variables in scope, the innermost first, with whether they
are constant, and the functions so far. -/
structure ParseState where
  rest : List Placed
  inScope : List (String × Bool)
  functions : List ScriptFunction

abbrev Parse := StateT ParseState (Except SyntaxError)

/-- Where something stands in the script. -/
structure ParseContext where
  /-- Not inside of a block or a function. -/
  isGlobal : Bool
  /-- Inside of a loop. -/
  inLoop : Bool
  /-- Inside of a function. -/
  inFunction : Bool
  /-- The depth of nesting. -/
  depth : Nat

namespace Parse

/-! ### Lexemes -/

def fail {α : Type} (f : SyntaxFault) (p : Position) : Parse α := throw ⟨f, p⟩

/-- The next lexeme, which stays. -/
def peek : Parse Placed := do
  match (← get).rest with
  | l :: _ => pure l
  | [] => pure ⟨.finish, .start⟩

/-- The next lexeme, which is consumed.  The end stays. -/
def next : Parse Placed := do
  let l ← peek
  modify fun s =>
    match s.rest with
    | _ :: l :: rest => { s with rest := l :: rest }
    | _ => s
  pure l

/-- The lexeme is the mark. -/
def isMark (l : Placed) (m : String) : Bool :=
  match l.lexeme with
  | .mark s => s == m
  | _ => false

/-- The next lexeme is the mark. -/
def sees (m : String) : Parse Bool := do return isMark (← peek) m

/-- Consumes the mark if it is next. -/
def accept (m : String) : Parse Bool := do
  if ← sees m then
    let _ ← next
    pure true
  else pure false

/-- Refuses the lexeme, for its own fault if it has one. -/
def refuse {α : Type} (l : Placed) (f : SyntaxFault) : Parse α :=
  match l.lexeme with
  | .invalid own => fail own l.place
  | _ => fail f l.place

/-- Consumes the mark, which has to be next. -/
def expect (m purpose : String) : Parse Unit := do
  if ← accept m then pure () else refuse (← peek) (.missing m purpose)

/-- The name of a variable. -/
def variableName : Parse String := do
  let l ← next
  match l.lexeme with
  | .name s => pure s
  | .reserved s => fail (.reservedWord s) l.place
  | _ => refuse l .variableExpected

/-! ### Scope -/

def bind (name : String) (isConst : Bool) : Parse Unit :=
  modify fun s => { s with inScope := (name, isConst) :: s.inScope }

/-- Forgets the variables that something has bound. -/
def enclosed {α : Type} (p : Parse α) : Parse α := do
  let outer := (← get).inScope
  let a ← p
  modify fun s => { s with inScope := outer }
  pure a

/-- Refuses to change a constant. -/
def checkChangeable (name : String) (place : Position) : Parse Unit := do
  if (List.lookup name (← get).inScope).getD false then fail (.constant name) place else pure ()

/-! ### Checks -/

/-- One level deeper. -/
def deeper (c : ParseContext) : Parse ParseContext := do
  if 64 ≤ c.depth then fail .tooDeep (← peek).place else pure { c with depth := c.depth + 1 }

/-- What a term is that is never a Boolean. -/
def neverBool? : Term → Option String
  | .literal .unit => some "()"
  | .literal (.int _) => some "a number"
  | .literal (.float _) => some "a floating-point number"
  | .literal (.text _) => some "a string"
  | .array _ => some "an array"
  | _ => none

/-- What a term is that cannot be run over. -/
def neverItems? : Term → Option String
  | .literal (.bool _) => some "a boolean"
  | .array _ => none
  | t => neverBool? t

/-- Refuses a term that is never a Boolean. -/
def ensureBool (t : Term) (place : Position) : Parse Unit :=
  match neverBool? t with
  | some found => fail (.mismatched "a boolean expression" found) place
  | none => pure ()

/-- Refuses a term that cannot be run over. -/
def ensureItems (t : Term) (place : Position) : Parse Unit :=
  match neverItems? t with
  | some found => fail (.mismatched "an iterable value" found) place
  | none => pure ()

/-- Why an index is no index, as far as can be seen from the text. -/
def badKey? : Term → Option String
  | .literal (.float _) => some "Array access expects integer index, not a float"
  | .literal (.bool _) => some "Array or string expects numeric index, not a boolean"
  | .literal .unit => some "Array or string expects numeric index, not ()"
  | .both .. => some "Array or string expects numeric index, not a boolean"
  | .either .. => some "Array or string expects numeric index, not a boolean"
  | _ => none

/-- Why a term has no elements, as far as can be seen from the text. -/
def badBase? : Term → Option String
  | .literal (.bool _) => some "Only arrays, object maps and strings can be indexed"
  | .literal (.float _) => some "Only arrays, object maps and strings can be indexed"
  | .literal .unit => some "Only arrays, object maps and strings can be indexed"
  | .both .. => some "Only arrays, object maps and strings can be indexed"
  | .either .. => some "Only arrays, object maps and strings can be indexed"
  | _ => none

/-- Refuses what something cannot be assigned to. -/
def ensureTarget (place : Position) : Term → Parse Unit
  | .var name p => checkChangeable name p
  | .index base _ _ => root base
  | .property base _ _ => root base
  | .literal _ => fail (.constant "") place
  | _ => fail .notAssignable place
where
  /-- Refuses an element of what cannot be changed. -/
  root : Term → Parse Unit
    | .var name p => checkChangeable name p
    | .index base _ _ => root base
    | .property base _ _ => root base
    | _ => fail .notAssignable place

/-! ### Operators -/

/-- An operator between two terms. -/
inductive Infix where
  | operator (op : Operator)
  | both
  | either

/-- The operator of a mark and how tightly it binds. -/
def infix? : String → Option (Infix × Nat)
  | "||" => some (.either, 30)
  | "&&" => some (.both, 60)
  | "==" => some (.operator .eq, 90)
  | "!=" => some (.operator .ne, 90)
  | "<" => some (.operator .lt, 130)
  | "<=" => some (.operator .le, 130)
  | ">" => some (.operator .gt, 130)
  | ">=" => some (.operator .ge, 130)
  | ".." => some (.operator .upTo, 140)
  | "..=" => some (.operator .through, 140)
  | "+" => some (.operator .add, 150)
  | "-" => some (.operator .sub, 150)
  | "*" => some (.operator .mul, 180)
  | "/" => some (.operator .div, 180)
  | "%" => some (.operator .rem, 180)
  | _ => none

/-- The operator that is next and how tightly it binds. -/
def infixOf? (l : Placed) : Option (Infix × Nat) :=
  match l.lexeme with
  | .mark m => infix? m
  | _ => none

/-- Two terms joined by an operator. -/
def join (op : Infix) (l r : Term) (leftPlace rightPlace place : Position) : Parse Term := do
  match op with
  | .operator op => pure (.binary op l r place)
  | .both => do
    ensureBool l leftPlace
    ensureBool r rightPlace
    pure (.both l r)
  | .either => do
    ensureBool l leftPlace
    ensureBool r rightPlace
    pure (.either l r)

/-- The operator of an assignment mark. -/
def assignment? : String → Option (Option Operator)
  | "=" => some none
  | "+=" => some (some .add)
  | "-=" => some (some .sub)
  | "*=" => some (some .mul)
  | "/=" => some (some .div)
  | "%=" => some (some .rem)
  | _ => none

/-- A sign before a term.  That of a number belongs to the number. -/
def signed (s : Sign) (t : Term) (place : Position) : Term :=
  match s, t with
  | .neg, .literal (.int n) =>
    match Number.fit? (-n.toInt) with
    | some m => .literal (.int m)
    | none => .literal (.float (-Number.floatOf n))
  | .neg, .literal (.float x) => .literal (.float (-x))
  | .pos, .literal v => .literal v
  | s, t => .unary s t place

/-- The statement needs nothing behind it. -/
def endsItself : Statement → Bool
  | .block _ => true
  | .branch .. => true
  | .cycle .. => true
  | .each .. => true
  | .attempt .. => true
  | _ => false

/-- The next lexeme begins a block. -/
def seesBlock : Parse Bool := sees "\x7b"

/-- The next lexeme ends a statement. -/
def seesEnd (withBrace : Bool) : Parse Bool := do
  let l ← peek
  match l.lexeme with
  | .finish => pure true
  | .mark ";" => pure true
  | .mark "\x7d" => pure withBrace
  | _ => pure false

/-- Parameters up to the closing bracket. -/
def params (function : String) : (fuel : Nat) → (acc : List String) → Parse (List String)
  | 0, _ => do refuse (← peek) .incomplete
  | fuel + 1, acc => do
    let l ← next
    match l.lexeme with
    | .mark ")" => pure acc.reverse
    | .name s =>
      if acc.contains s then fail (.duplicateParam function s) l.place
      else if ← accept ")" then pure (s :: acc).reverse
      else do
        expect "," s!"to separate the parameters of function '{function}'"
        params function fuel (s :: acc)
    | .reserved s => fail (.reservedWord s) l.place
    | _ => refuse l (.missing ")" s!"to close the parameters list of function '{function}'")

/-- What begins a statement that is no term. -/
inductive Opener where
  | empty
  | brace
  | function
  | hidden
  | branch
  | cycle
  | each
  | again
  | leave
  | ret
  | raise
  | attempt
  | variable
  | constant
  | load
  | publish

def opener? : String → Option Opener
  | ";" => some .empty
  | "\x7b" => some .brace
  | "fn" => some .function
  | "private" => some .hidden
  | "if" => some .branch
  | "while" => some .cycle
  | "loop" => some .cycle
  | "for" => some .each
  | "continue" => some .again
  | "break" => some .leave
  | "return" => some .ret
  | "throw" => some .raise
  | "try" => some .attempt
  | "let" => some .variable
  | "const" => some .constant
  | "import" => some .load
  | "export" => some .publish
  | _ => none

/-- What begins a statement with the lexeme. -/
def openerOf? (l : Placed) : Option Opener :=
  match l.lexeme with
  | .mark m => opener? m
  | _ => none

/-- The variable of a handler, if it has one. -/
def caught : Parse (Option String) := do
  if ← accept "(" then
    let name ← variableName
    expect ")" "to enclose the catch variable"
    bind name false
    pure (some name)
  else pure none

/-- The variables of a loop over items. -/
def eachNames : Parse (String × Option String) := do
  if ← accept "(" then
    let name ← variableName
    expect "," "after the iteration variable name"
    let l ← peek
    let counter ← variableName
    if counter == name then fail (.duplicateVariable counter) l.place
    else do
      expect ")" "to close the iteration variable"
      pure (name, some counter)
  else do
    let name ← variableName
    pure (name, none)

/-- Consumes a lexeme that is a literal. -/
def literal (v : Datum) : Parse Term := do
  let _ ← next
  pure (.literal v)

/-! ### Terms and statements -/

mutual

/-- A term. -/
def term (c : ParseContext) : (fuel : Nat) → Parse Term
  | 0 => do refuse (← peek) .incomplete
  | fuel + 1 => do
    let place := (← peek).place
    let first ← unary c fuel
    infixed c 1 first place fuel

/-- The operators behind a term that bind tighter than a level. -/
def infixed (c : ParseContext) (level : Nat) (left : Term) (leftPlace : Position) : (fuel : Nat) → Parse Term
  | 0 => do refuse (← peek) .incomplete
  | fuel + 1 => do
    let l ← peek
    match infixOf? l with
    | none => pure left
    | some (op, tightness) =>
      if tightness ≤ level then pure left
      else do
        let _ ← next
        let rightPlace := (← peek).place
        let right ← unary c fuel
        let right ← infixed c tightness right rightPlace fuel
        let joined ← join op left right leftPlace rightPlace l.place
        infixed c level joined leftPlace fuel

/-- A term with signs before it. -/
def unary (c : ParseContext) : (fuel : Nat) → Parse Term
  | 0 => do refuse (← peek) .incomplete
  | fuel + 1 => do
    let l ← peek
    let sign := match l.lexeme with
      | .mark "-" => some Sign.neg
      | .mark "+" => some Sign.pos
      | .mark "!" => some Sign.not
      | _ => none
    match sign with
    | some s => do
      let _ ← next
      let t ← unary (← deeper c) fuel
      pure (signed s t l.place)
    | none => do
      let t ← primary c fuel
      chain c t fuel

/-- Properties, methods and elements of a term. -/
def chain (c : ParseContext) (base : Term) : (fuel : Nat) → Parse Term
  | 0 => do refuse (← peek) .incomplete
  | fuel + 1 => do
    let l ← peek
    if ← accept "." then
      let m ← next
      match m.lexeme with
      | .name s => do
        if ← accept "(" then
          let args ← arguments (← deeper c) fuel
          chain c (.method base s args m.place) fuel
        else chain c (.property base s m.place) fuel
      | .reserved s => do
        if Lexeme.callableWords.contains s then
          expect "(" s!"to begin the arguments of '{s}'"
          let args ← arguments (← deeper c) fuel
          chain c (.method base s args m.place) fuel
        else fail (.reservedWord s) m.place
      | _ => refuse m .propertyExpected
    else if ← accept "[" then
      let keyPlace := (← peek).place
      let key ← term (← deeper c) fuel
      match badBase? base, badKey? key with
      | some reason, _ => fail (.badIndex reason) l.place
      | none, some reason => fail (.badIndex reason) keyPlace
      | none, none => do
        expect "]" "for a matching [ in this index expression"
        chain c (.index base key l.place) fuel
    else pure base

/-- Arguments of a call up to the closing bracket. -/
def arguments (c : ParseContext) : (fuel : Nat) → Parse (List Term)
  | 0 => do refuse (← peek) .incomplete
  | fuel + 1 => do
    if ← accept ")" then pure []
    else do
      let t ← term c fuel
      if ← accept ")" then pure [t]
      else do
        expect "," "to separate the arguments to function call"
        let ts ← arguments c fuel
        pure (t :: ts)

/-- Items of an array up to the closing bracket. -/
def items (c : ParseContext) : (fuel : Nat) → Parse (List Term)
  | 0 => do refuse (← peek) .incomplete
  | fuel + 1 => do
    if ← accept "]" then pure []
    else do
      let t ← term c fuel
      if ← accept "]" then pure [t]
      else do
        expect "," "to separate the items of this array literal"
        let ts ← items c fuel
        pure (t :: ts)

/-- A term without signs and operators. -/
def primary (c : ParseContext) : (fuel : Nat) → Parse Term
  | 0 => do refuse (← peek) .incomplete
  | fuel + 1 => do
    let l ← peek
    match l.lexeme with
    | .int n => literal (.int n)
    | .float x => literal (.float x)
    | .str s => literal (.text s)
    | .mark "true" => literal (.bool true)
    | .mark "false" => literal (.bool false)
    | .mark "(" => do
      let _ ← next
      if ← accept ")" then pure (.literal .unit)
      else do
        let t ← term (← deeper c) fuel
        expect ")" "for a matching ( in this expression"
        pure t
    | .mark "[" => do
      let _ ← next
      let ts ← items (← deeper c) fuel
      pure (.array ts)
    | .mark "\x7b" => do
      let body ← block c fuel
      pure (.statement (.block body))
    | .mark "if" => do return .statement (← branch c fuel)
    | .mark "while" => do return .statement (← cycle c fuel)
    | .mark "loop" => do return .statement (← cycle c fuel)
    | .mark "for" => do return .statement (← each c fuel)
    | .name s => do
      let _ ← next
      if ← accept "(" then
        let args ← arguments (← deeper c) fuel
        pure (.call s args l.place)
      else pure (.var s l.place)
    | .reserved s => do
      let _ ← next
      if s == "this" && c.inFunction then pure (.var s l.place)
      else if Lexeme.callableWords.contains s then
        if ← accept "(" then
          let args ← arguments (← deeper c) fuel
          pure (.call s args l.place)
        else fail (.reservedWord s) l.place
      else fail (.reservedWord s) l.place
    | .finish => fail .incomplete l.place
    | other => refuse l (.unexpected other.shown)

/-- Statements in braces. -/
def block (c : ParseContext) : (fuel : Nat) → Parse (List Statement)
  | 0 => do refuse (← peek) .incomplete
  | fuel + 1 => do
    expect "\x7b" "to start a statement block"
    let c ← deeper c
    enclosed (statements { c with isGlobal := false } fuel)

/-- Statements up to the closing brace. -/
def statements (c : ParseContext) : (fuel : Nat) → Parse (List Statement)
  | 0 => do refuse (← peek) .incomplete
  | fuel + 1 => do
    let l ← peek
    if ← accept "\x7d" then pure []
    else match l.lexeme with
      | .finish => fail (.missing "\x7d" "to terminate this block") l.place
      | _ => do
        match ← statement c fuel with
        | none => statements c fuel
        | some s => do
          if !(endsItself s) && !(← sees "\x7d") then
            expect ";" "to terminate this statement"
          let ss ← statements c fuel
          pure (s :: ss)

/-- A statement, nothing for an empty one or a function. -/
def statement (c : ParseContext) : (fuel : Nat) → Parse (Option Statement)
  | 0 => do refuse (← peek) .incomplete
  | fuel + 1 => do
    let l ← peek
    match openerOf? l with
    | some .empty => do
      let _ ← next
      pure none
    | some .brace => do
      let body ← block c fuel
      pure (some (.block body))
    | some .function => do
      function c fuel
      pure none
    | some .hidden => do
      let _ ← next
      if ← sees "fn" then
        function c fuel
        pure none
      else refuse (← peek) (.missing "fn" "following 'private'")
    | some .branch => do return some (← branch c fuel)
    | some .cycle => do return some (← cycle c fuel)
    | some .each => do return some (← each c fuel)
    | some .again => do
      let _ ← next
      if c.inLoop then pure (some .again) else fail .outsideLoop l.place
    | some .leave => do
      let _ ← next
      if c.inLoop then return some (.leave (← optionalTerm c true fuel)) else fail .outsideLoop l.place
    | some .ret => do
      let _ ← next
      return some (.ret (← optionalTerm c (!c.isGlobal) fuel))
    | some .raise => do
      let _ ← next
      return some (.raise (← optionalTerm c (!c.isGlobal) fuel))
    | some .attempt => do
      let _ ← next
      let body ← block c fuel
      if !(← accept "catch") then refuse (← peek) (.missing "catch" "for the 'try' statement")
      enclosed do
        let name ← caught
        let handler ← block c fuel
        pure (some (.attempt body name handler))
    | some .variable => do return some (← definition c false fuel)
    | some .constant => do return some (← definition c true fuel)
    | some .load => do
      let _ ← next
      let path ← term c fuel
      if ← accept "as" then
        let _ ← variableName
      pure (some (.load path l.place))
    | some .publish => do
      let _ ← next
      if !c.isGlobal then fail .nestedExport l.place
      else if ← sees "let" then return some (← definition c false fuel)
      else if ← sees "const" then return some (← definition c true fuel)
      else do
        let name ← variableName
        if ← accept "as" then
          let _ ← variableName
        pure (some (.publish name l.place))
    | none => do return some (← simple c fuel)

/-- A term, unless the statement ends. -/
def optionalTerm (c : ParseContext) (withBrace : Bool) : (fuel : Nat) → Parse (Option Term)
  | 0 => do refuse (← peek) .incomplete
  | fuel + 1 => do
    if ← seesEnd withBrace then pure none else return some (← term c fuel)

/-- The definition of a variable or a constant. -/
def definition (c : ParseContext) (isConst : Bool) : (fuel : Nat) → Parse Statement
  | 0 => do refuse (← peek) .incomplete
  | fuel + 1 => do
    let _ ← next
    let name ← variableName
    let value ← if ← accept "=" then pure (some (← term c fuel)) else pure none
    bind name isConst
    pure (.define name isConst value)

/-- A term or an assignment. -/
def simple (c : ParseContext) : (fuel : Nat) → Parse Statement
  | 0 => do refuse (← peek) .incomplete
  | fuel + 1 => do
    let place := (← peek).place
    let target ← term c fuel
    let l ← peek
    let op := match l.lexeme with
      | .mark m => assignment? m
      | _ => none
    match op with
    | none => pure (.term target)
    | some op => do
      let _ ← next
      let value ← term c fuel
      ensureTarget place target
      pure (.store op target value l.place)

/-- The condition of a branch or a loop. -/
def condition (c : ParseContext) : (fuel : Nat) → Parse Term
  | 0 => do refuse (← peek) .incomplete
  | fuel + 1 => do
    let l ← peek
    if ← seesBlock then fail (.exprExpected "a boolean") l.place
    else do
      let t ← term (← deeper c) fuel
      ensureBool t l.place
      let l ← peek
      if isMark l "=" then fail .typo l.place else pure t

/-- A branch. -/
def branch (c : ParseContext) : (fuel : Nat) → Parse Statement
  | 0 => do refuse (← peek) .incomplete
  | fuel + 1 => do
    let _ ← next
    let t ← condition c fuel
    let yes ← block c fuel
    if ← accept "else" then
      if ← sees "if" then
        let inner ← branch c fuel
        pure (.branch t yes [inner])
      else do
        let no ← block c fuel
        pure (.branch t yes no)
    else pure (.branch t yes [])

/-- A loop with a condition or without one. -/
def cycle (c : ParseContext) : (fuel : Nat) → Parse Statement
  | 0 => do refuse (← peek) .incomplete
  | fuel + 1 => do
    let l ← next
    let t ← if isMark l "while" then pure (some (← condition c fuel)) else pure none
    let body ← block { c with inLoop := true } fuel
    pure (.cycle t body)

/-- A loop over items. -/
def each (c : ParseContext) : (fuel : Nat) → Parse Statement
  | 0 => do refuse (← peek) .incomplete
  | fuel + 1 => do
    let start ← next
    let (name, counter) ← eachNames
    expect "in" "after the iteration variable"
    let l ← peek
    if ← seesBlock then fail (.exprExpected "a boolean") l.place
    else do
      let t ← term (← deeper c) fuel
      ensureItems t l.place
      enclosed do
        if let some n := counter then bind n false
        bind name false
        let body ← block { c with inLoop := true } fuel
        pure (.each name counter t body start.place)

/-- The definition of a function. -/
def function (c : ParseContext) : (fuel : Nat) → Parse Unit
  | 0 => do refuse (← peek) .incomplete
  | fuel + 1 => do
    let l ← next
    if !c.isGlobal then fail .nestedFunction l.place
    else do
      let n ← next
      match n.lexeme with
      | .name name => do
        if !(← accept "(") then refuse (← peek) (.functionParams name)
        else do
          let ps ← params name fuel []
          if !(← seesBlock) then refuse (← peek) (.functionBody name)
          else do
            let outer := (← get).inScope
            modify fun s => { s with inScope := ps.map fun p => (p, false) }
            let body ← block ⟨false, false, true, 0⟩ fuel
            modify fun s => { s with inScope := outer }
            if (← get).functions.any fun f => f.name == name && f.params.length == ps.length then
              fail (.duplicateFunction name ps.length) n.place
            else modify fun s => { s with functions := s.functions ++ [⟨name, ps, body⟩] }
      | .reserved s => fail (.reservedWord s) n.place
      | _ => refuse n .functionName

end

/-- The statements of a script up to its end. -/
def program : (fuel : Nat) → Parse (List Statement)
  | 0 => do refuse (← peek) .incomplete
  | fuel + 1 => do
    let l ← peek
    match l.lexeme with
    | .finish => pure []
    | _ => do
      match ← statement ⟨true, false, false, 0⟩ fuel with
      | none => program fuel
      | some s => do
        let l ← peek
        match l.lexeme with
        | .finish => pure [s]
        | _ => do
          if !(endsItself s) then expect ";" "to terminate this statement"
          let ss ← program fuel
          pure (s :: ss)

end Parse

/-- The tree of a script. -/
def ScriptTree.parse (source : String) : Except SyntaxError ScriptTree :=
  let lexemes := Lexeme.scan source
  match (Parse.program (16 * lexemes.length + 16)).run ⟨lexemes, [], []⟩ with
  | .ok (body, s) => .ok ⟨body, s.functions⟩
  | .error e => .error e

end RunningLights.Script
