import RunningLights.Procedure.Random
import RunningLights.Script.Functions

/-!
# Running scripts

A script runs on a `Stage`: the session of the strip, the variables in scope, and a source of random numbers.  Every
term, statement, call and pass of a loop is one operation of the session, so the clock bounds a run.

Functions see their parameters and nothing of the variables around them.

* `runStatement`, `runBody` — statements, which have a value too;
* `resolve` — a term as a place, so that methods and assignments can change what is there;
* `callScript` — a function of the script, as long as not too many are active.
-/

namespace RunningLights.Script

/-- A variable in scope. -/
structure Binding where
  name : String
  isConst : Bool
  value : Datum
  deriving Inhabited

/-- The state of a run. -/
structure Stage where
  session : Session
  /-- The variables in scope, the innermost first. -/
  scope : List Binding
  generator : Procedure.Generator
  deriving Inhabited

/-- A computation on the stage that may end early.  What it did before stays done. -/
abbrev Act := ExceptT Signal (StateM Stage)

/-- What a term stands for. -/
inductive Place where
  | value (d : Datum)
  /-- An element of a variable, or the variable itself if there are no keys. -/
  | cell (name : String) (keys : List Datum) (position : Position)

/-- How the functions of the script are called. -/
structure Calls where
  /-- The call of a function by its name and arguments, if the script has it. -/
  call? : String → List Datum → Option (Act Datum)

namespace Act

/-- A computation on the session. -/
@[inline] def play {α : Type} (p : Play α) : Act α := fun stage =>
  match p stage.session with
  | (.ok a, session) => (.ok a, { stage with session })
  | (.error e, session) => (.error (.abort e), { stage with session })

/-- One operation. -/
def operation : Act Unit := play Session.operation

/-- A value that may be a failure at a place. -/
def settleAt {α : Type} (place : Position) : Except Failure α → Act α
  | .ok a => pure a
  | .error f => throw (.failed f place)

/-- Changes the scope after a computation, however that ends. -/
def leaving {α : Type} (restore : List Binding → List Binding) (act : Act α) : Act α := fun stage =>
  let (result, stage) := act stage
  (result, { stage with scope := restore stage.scope })

/-- Forgets the variables that a computation adds. -/
def enclosed {α : Type} (act : Act α) : Act α := fun stage =>
  let size := stage.scope.length
  leaving (fun scope => scope.drop (scope.length - size)) act stage

/-- Runs a function in a scope of its own. -/
def inScope {α : Type} (scope : List Binding) (act : Act α) : Act α := fun stage =>
  let outer := stage.scope
  leaving (fun _ => outer) act { stage with scope }

/-- Adds a variable. -/
def define (name : String) (isConst : Bool) (value : Datum) : Act Unit := fun stage =>
  (.ok (), { stage with scope := ⟨name, isConst, value⟩ :: stage.scope })

/-- The value that a function returns, or has. -/
def returning (act : Act Datum) : Act Datum := fun stage =>
  match act stage with
  | (.error (.ret v), stage) => (.ok v, stage)
  | done => done

/-- Handles a failure that can be caught. -/
def handling (act : Act Datum) (handler : Datum → Act Datum) : Act Datum := fun stage =>
  match act stage with
  | (.error (.failed f p), stage) =>
    if f.isCatchable then handler f.value stage else (.error (.failed f p), stage)
  | done => done

/-- One pass of a loop, with the value of the loop if it ends there. -/
def pass (body : Act Datum) : Act (Option Datum) := fun stage =>
  match body stage with
  | (.ok _, stage) => (.ok none, stage)
  | (.error .again, stage) => (.ok none, stage)
  | (.error (.leave v), stage) => (.ok (some v), stage)
  | (.error e, stage) => (.error e, stage)

end Act

/-! ### Elements -/

namespace Datum

/-- An element of a value: an item of an array, a character of a text, or a bit of an integer. -/
def element (d key : Datum) : Except Failure Datum :=
  match d, key with
  | .array items, .int i =>
    match Functions.place? i items.size with
    | some k => .ok (items[k]?.getD .unit)
    | none => .error (.outOfBounds i items.size)
  | .text s, .int i =>
    match (Functions.place? i s.length).bind fun k => s.toList[k]? with
    | some c => .ok (.text (String.singleton c))
    | none => .error (.outOfBounds i s.length)
  | .int n, .int i =>
    match Functions.place? i 64 with
    | some k => .ok (.bool (n.toInt.shiftRight k % 2 == 1))
    | none => .error (.outOfBounds i 64)
  | .array _, key => .error (.mismatched "i64" key.typeName)
  | d, key => .error (.notIndexable (d.typeName ++ " [" ++ key.typeName ++ "]"))

/-- The element that keys lead to, one after another. -/
def elementAt (d : Datum) : List Datum → Except Failure Datum
  | [] => .ok d
  | key :: keys =>
    match d.element key with
    | .ok d => elementAt d keys
    | .error f => .error f

/-- Changes the element that keys lead to. -/
def change {α : Type} (f : Datum → Except Failure α × Datum) : List Datum → Datum → Except Failure α × Datum
  | [], d => f d
  | key :: keys, .array items =>
    match key with
    | .int i =>
      match Functions.place? i items.size with
      | none => (.error (.outOfBounds i items.size), .array items)
      | some k =>
        let (item, items) := ((items[k]?).getD .unit, items.setIfInBounds k .unit)
        let (result, item) := change f keys item
        (result, .array (items.setIfInBounds k item))
    | key => (.error (.mismatched "i64" key.typeName), .array items)
  | key :: _, d => (.error (.notIndexable (d.typeName ++ " [" ++ key.typeName ++ "]")), d)

end Datum

/-! ### Variables -/

namespace Binding

/-- The variable of the name that is seen. -/
def find? (name : String) (scope : List Binding) : Option Binding := scope.find? fun b => b.name == name

/-- Changes the variable of the name that is seen, unless it is constant. -/
def changeIn {α : Type} (name : String) (f : Datum → Except Failure α × Datum) :
    List Binding → Except Failure α × List Binding
  | [] => (.error (.unknownVariable name), [])
  | ⟨n, isConst, value⟩ :: rest =>
    if n == name then
      if isConst then (.error (.constant name), ⟨n, isConst, value⟩ :: rest)
      else
        let (result, value) := f value
        (result, ⟨n, isConst, value⟩ :: rest)
    else
      let (result, rest) := changeIn name f rest
      (result, ⟨n, isConst, value⟩ :: rest)

end Binding

namespace Act

/-- Changes an element of a variable. -/
def changeVariable {α : Type} (name : String) (keys : List Datum) (position : Position)
    (f : Datum → Except Failure α × Datum) : Act α := fun stage =>
  match stage with
  | ⟨session, scope, generator⟩ =>
    match Binding.changeIn name (Datum.change f keys) scope with
    | (.ok a, scope) => (.ok a, ⟨session, scope, generator⟩)
    | (.error e, scope) => (.error (.failed e position), ⟨session, scope, generator⟩)

/-- The value of a place. -/
def read : Place → Act Datum
  | .value d => pure d
  | .cell name keys position => do
    match Binding.find? name (← get).scope with
    | none => throw (.failed (.unknownVariable name) position)
    | some b => settleAt position (b.value.elementAt keys)

/-- The value of each place. -/
def readAll : List Place → Act (List Datum)
  | [] => pure []
  | p :: ps => do
    let v ← read p
    let vs ← readAll ps
    pure (v :: vs)

/-- The place of an element. -/
def elementOf (p : Place) (key : Datum) (position : Position) : Act Place :=
  match p with
  | .value d => do return .value (← settleAt position (d.element key))
  | .cell name keys position => pure (.cell name (keys ++ [key]) position)

/-- Stores a value in a place. -/
def store (op : Option Operator) (p : Place) (new : Datum) (position : Position) : Act Unit :=
  match p with
  | .value _ => pure ()
  | .cell name keys place =>
    match op with
    | none => changeVariable name keys place fun _ => (.ok (), new)
    | some op => changeVariable name keys position fun old =>
      match op.update old new with
      | .ok v => (.ok (), v)
      | .error f => (.error f, old)

/-! ### Calls -/

/-- A random number from zero up to but not including a bound. -/
def randomBelow (bound : Nat) : Act Nat := fun stage =>
  let g := stage.generator.next
  (.ok (g.seed * bound / Procedure.randomModulus), { stage with generator := g })

/-- A random number of a range, or its lower end if it has no others. -/
def randomFrom (low : Int64) (count : Int) : Act Datum := do
  if count ≤ 1 then pure (.int low)
  else
    let k ← randomBelow count.toNat
    pure (.int (Int64.ofInt (low.toInt + k)))

/-- Draws candidates for a channel, so many times. -/
def drawn (total : Nat) : (times : Nat) → Procedure.Generator → List Nat
  | 0, _ => []
  | times + 1, g => g.next.seed * total / Procedure.randomModulus :: drawn total times g.next

/-- Candidates among which every channel occurs. -/
def candidates (total : Nat) (g : Procedure.Generator) : List Nat := drawn total (4 * total) g ++ List.range total

/-- The random functions, by their arguments. -/
def random? : String → List Datum → Option (Act Datum)
  | "random", [.int max] => some (randomFrom 0 max.toInt)
  | "random", [.int min, .int max] => some (randomFrom min (max.toInt - min.toInt + 1))
  | _, _ => none

/-- Calls a function that is not the script's. -/
def callLibrary (name : String) (args : List Datum) (position : Position) : Act Datum := do
  let stage ← get
  match Functions.request? (fun _ => candidates stage.session.channels.size stage.generator) name args with
  | some r => do
    play (Session.perform r)
    modify fun stage => { stage with generator := stage.generator.next }
    pure .unit
  | none =>
    match random? name args with
    | some act => act
    | none =>
      match Functions.value? name args with
      | some result => settleAt position result
      | none => throw (.failed (.unknownFunction name (args.map Datum.typeName)) position)

/-- The change that a method makes of an array, as a change of a value. -/
def onArray (name : String) (args : List Datum) (change : Functions.Change) (d : Datum) :
    Except Failure Datum × Datum :=
  match d with
  | .array items =>
    let (result, items) := change items
    (result, .array items)
  | d => (.error (.unknownFunction name (d.typeName :: args.map Datum.typeName)), d)

/-- The place is a constant. -/
def isConstant (p : Place) : Act Bool := do
  match p with
  | .value _ => pure false
  | .cell name _ _ => return (Binding.find? name (← get).scope).any Binding.isConst

/-- Calls a library method on a place.  A method that changes an array changes what is in the place. -/
def callMethod (p : Place) (name : String) (args : List Datum) (position : Position) : Act Datum := do
  match Functions.method? name args, p with
  | some change, .cell root keys _ => do
    if ← isConstant p then throw (.failed (.constantReceiver name) position)
    else changeVariable root keys position (onArray name args change)
  | some change, .value d => settleAt position (onArray name args change d).1
  | none, p => do
    let v ← read p
    callLibrary name (v :: args) position

/-- Calls a function on places: one of the script if there is one.  A library function changes its first argument
if that is a variable, a copy of it if that is constant. -/
def callFunction (calls : Calls) (name : String) (args : List Place) (position : Position) : Act Datum := do
  operation
  let values ← readAll args
  match calls.call? name values with
  | some act => act
  | none =>
    match args with
    | .cell root [] p :: _ =>
      match Functions.method? name values.tail with
      | some _ => do
        let p := .cell root [] p
        if ← isConstant p then callMethod (.value (values.headD .unit)) name values.tail position
        else callMethod p name values.tail position
      | none => callLibrary name values position
    | _ => callLibrary name values position

/-- The property of a value. -/
def property (d : Datum) (name : String) (position : Position) : Act Datum :=
  match Functions.ofWhole? name d with
  | some v => pure v
  | none => throw (.failed (.unknownProperty name d.typeName) position)

/-! ### Loops -/

/-- The passes of a loop with a test.  Each is an operation, so the clock bounds their number, and the loop does not
run out of `fuel`. -/
def cyclePasses (test : Act Bool) (body : Act Datum) : (fuel : Nat) → Act Datum
  | 0 => do throw (.abort (.timeout (← get).session.wallClock))
  | fuel + 1 => do
    operation
    if ← test then
      match ← pass body with
      | none => cyclePasses test body fuel
      | some v => pure v
    else pure .unit

/-- A loop with a test, which the clock ends before the fuel does.  Its fuel is not to be counted down when statements
are unfolded. -/
@[irreducible] def cycle (test : Act Bool) (body : Act Datum) : Act Datum := do
  cyclePasses test body (← get).session.operationsLeft

/-- The passes of a loop over integers, from number `k` on. -/
def spanPasses (s : Span) (body : Datum → Nat → Act Datum) : (left : Nat) → (k : Nat) → Act Datum
  | 0, _ => pure .unit
  | left + 1, k => do
    operation
    match ← pass (body (.int (s.get k)) k) with
    | none => spanPasses s body left (k + 1)
    | some v => pure v

/-- The passes of a loop over values, the first of which has number `k`. -/
def listPasses (body : Datum → Nat → Act Datum) : List Datum → (k : Nat) → Act Datum
  | [], _ => pure .unit
  | d :: ds, k => do
    operation
    match ← pass (body d k) with
    | none => listPasses body ds (k + 1)
    | some v => pure v

/-- Runs over the items of a value. -/
def overItems (d : Datum) (position : Position) (body : Datum → Nat → Act Datum) : Act Datum :=
  match d with
  | .span s => spanPasses s body s.count 0
  | .array items => listPasses body items.toList 0
  | .text s => listPasses body (s.toList.map fun c => .text (String.singleton c)) 0
  | _ => throw (.failed .notIterable position)

/-- A Boolean. -/
def truth (d : Datum) : Act Bool :=
  match d with
  | .bool b => pure b
  | d => throw (.failed (.mismatched "bool" d.typeName) .start)

/-- The value of a variable that has to be there. -/
def requireVariable (name : String) (position : Position) : Act Datum := do
  let _ ← read (.cell name [] position)
  pure .unit

end Act

/-! ### Terms and statements -/

section

open Act

mutual

/-- What a term stands for. -/
def resolve (calls : Calls) : Term → Act Place
  | .literal v => do
    operation
    pure (.value v)
  | .var name place => do
    operation
    pure (.cell name [] place)
  | .array items => do
    operation
    let ds ← valuesOf calls items
    pure (.value (.array ds.toArray))
  | .unary s t place => do
    operation
    let v ← read (← resolve calls t)
    return .value (← settleAt place (s.apply v))
  | .binary op l r place => do
    operation
    let a ← read (← resolve calls l)
    let b ← read (← resolve calls r)
    return .value (← settleAt place (op.apply a b))
  | .both l r => do
    operation
    if ← truth (← read (← resolve calls l)) then
      return .value (.bool (← truth (← read (← resolve calls r))))
    else pure (.value (.bool false))
  | .either l r => do
    operation
    if ← truth (← read (← resolve calls l)) then pure (.value (.bool true))
    else return .value (.bool (← truth (← read (← resolve calls r))))
  | .call name args place => do
    operation
    let ps ← resolveAll calls args
    return .value (← callFunction calls name ps place)
  | .index base key place => do
    operation
    let p ← resolve calls base
    let k ← read (← resolve calls key)
    elementOf p k place
  | .property base name place => do
    operation
    let d ← read (← resolve calls base)
    return .value (← property d name place)
  | .method base name args place => do
    operation
    let p ← resolve calls base
    let vs ← valuesOf calls args
    match calls.call? name vs with
    | some act => return .value (← act)
    | none => return .value (← callMethod p name vs place)
  | .statement s => do return .value (← runStatement calls s)

/-- What terms stand for, from left to right.  Only a variable stays a place. -/
def resolveAll (calls : Calls) : List Term → Act (List Place)
  | [] => pure []
  | t :: ts => do
    let p ← resolve calls t
    let p ← match p with
      | .cell _ [] _ => pure p
      | p => do pure (.value (← read p))
    let ps ← resolveAll calls ts
    pure (p :: ps)

/-- The values of terms, from left to right. -/
def valuesOf (calls : Calls) : List Term → Act (List Datum)
  | [] => pure []
  | t :: ts => do
    let v ← read (← resolve calls t)
    let vs ← valuesOf calls ts
    pure (v :: vs)

/-- The value of a term that may be missing. -/
def valueOr (calls : Calls) : Option Term → Act Datum
  | none => pure .unit
  | some t => do read (← resolve calls t)

/-- Runs a statement. -/
def runStatement (calls : Calls) : Statement → Act Datum
  | .term t => do
    operation
    read (← resolve calls t)
  | .define name isConst value => do
    operation
    let v ← valueOr calls value
    define name isConst v
    pure .unit
  | .store op target value place => do
    operation
    let v ← read (← resolve calls value)
    let p ← resolve calls target
    store op p v place
    pure .unit
  | .block body => do
    operation
    enclosed (runBody calls true body)
  | .branch condition yes no => do
    operation
    if ← truth (← read (← resolve calls condition)) then enclosed (runBody calls true yes)
    else enclosed (runBody calls true no)
  | .cycle condition body => do
    operation
    let test := match condition with
      | some t => do truth (← read (← resolve calls t))
      | none => pure true
    cycle test (enclosed (runBody calls false body))
  | .each name counter items body place => do
    operation
    let d ← read (← resolve calls items)
    overItems d place fun item k => enclosed do
      if let some n := counter then define n false (.int (Int64.ofNat k))
      define name false item
      runBody calls false body
  | .leave value => do
    operation
    throw (.leave (← valueOr calls value))
  | .again => do
    operation
    throw .again
  | .ret value => do
    operation
    throw (.ret (← valueOr calls value))
  | .raise value => do
    operation
    throw (.failed (.thrown (← valueOr calls value)) .start)
  | .attempt body name handler => do
    operation
    handling (enclosed (runBody calls true body)) fun v => enclosed do
      if let some n := name then define n false v
      runBody calls true handler
  | .load path place => do
    operation
    match ← read (← resolve calls path) with
    | .text s => throw (.failed (.noModule s) place)
    | d => throw (.failed (.mismatched "string" d.typeName) place)
  | .publish name place => do
    operation
    requireVariable name place

/-- Runs statements one after another; the value is that of the last, if it is wanted.  A statement that does nothing
but have a value is left out. -/
def runBody (calls : Calls) (wanted : Bool) : List Statement → Act Datum
  | [] => pure .unit
  | [s] => if !wanted && s.isIdle then pure .unit else runStatement calls s
  | s :: ss => do
    if !s.isIdle then
      let _ ← runStatement calls s
    runBody calls wanted ss

end

end

/-! ### Functions -/

/-- The variables of a call. -/
def bindArguments (params : List String) (args : List Datum) : List Binding :=
  ((params.zip args).map fun (n, v) => ⟨n, false, v⟩).reverse

/-- The function of the script that a call means. -/
def functionFor? (functions : List ScriptFunction) (name : String) (args : List Datum) : Option ScriptFunction :=
  functions.find? fun f => f.name == name && f.params.length == args.length

/-- Calls functions of the script.  The `levels` are the calls that may still become active; one that does nothing
needs none. -/
def callScript (functions : List ScriptFunction) : (levels : Nat) → Calls
  | 0 => ⟨fun name args => (functionFor? functions name args).map fun f =>
    if f.body.isEmpty then pure .unit else throw (.failed .callDepth .start)⟩
  | levels + 1 => ⟨fun name args => (functionFor? functions name args).map fun f =>
    if f.body.isEmpty then pure .unit
    else do
      Act.operation
      Act.inScope (bindArguments f.params args)
        (Act.returning (runBody (callScript functions levels) true f.body))⟩

/-! ### Scripts -/

/-- The constants that every script sees. -/
def constants (total : Nat) (baseDelay : Duration) : List Binding :=
  let n := Int64.ofNat total
  let ms := Int64.ofNat baseDelay.wholeMillis
  let matrix := Datum.array (Library.matrix.map Datum.ofInts).toArray
  [⟨"pattern_matrix", true, matrix⟩,
    ⟨"pin_ptr_", true, .ofInts ((List.range total).map Int64.ofNat)⟩,
    ⟨"half_size", true, .int (n / 2)⟩, ⟨"delay_time_", true, .int ms⟩, ⟨"pin_size_", true, .int n⟩,
    ⟨"delay_time", true, .int ms⟩, ⟨"total_channels", true, .int n⟩]

/-- Runs a script. -/
def ScriptTree.run (tree : ScriptTree) (callLevels : Nat) : Act Unit := do
  let _ ← Act.returning (runBody (callScript tree.functions callLevels) true tree.body)
  pure ()

end RunningLights.Script
