import RunningLights.Procedure.Calls
import RunningLights.Procedure.Loop

/-!
# Running statements

What cannot be evaluated never ends a run: a channel falls back to the first one, a condition to false, a delay to
the base delay, and all else to zero.  A run ends when its work exceeds the limit or when a frame is refused.

Every statement and every pass of a loop is one unit of work.  A counted loop knows its number of passes and pays for
them when it starts, by raising the limit.
-/

namespace RunningLights.Procedure

/-- How a list of statements ends. -/
inductive Flow where
  | normal
  /-- By a return, perhaps with a value. -/
  | ret (value : Option Value)
  /-- By the end of the run. -/
  | halt
  deriving Inhabited

/-! ### The work of statements -/

mutual

/-- The work of one straight pass through a statement.  A counted loop inside pays for its own passes. -/
def stmtCost : Stmt → Nat
  | .branch _ yes no => 1 + bodyCost yes + bodyCost no
  | .doLoop body _ => 2 + bodyCost body
  | _ => 1

/-- The work of one straight pass through statements. -/
def bodyCost : List Stmt → Nat
  | [] => 0
  | s :: ss => stmtCost s + bodyCost ss

end

/-! ### Simple statements -/

/-- A change of the machine without a result. -/
@[inline] def Run.change (f : Machine → Machine) : Run Unit := fun m => ((), f m)

/-- What the machine is asked for. -/
@[inline] def Run.read {α : Type} (f : Machine → α) : Run α := fun m => (f m, m)

section

variable (env : Environment Eval)

/-- Switches one channel; a number beyond the strip means the nearest one on it. -/
def setChannel (channel state : Operand) : Run Unit := do
  let total ← Run.read Machine.total
  if total = 0 then pure ()
  else
    let i ← orElse (Operand.evalInt env channel) 0
    let on ← Operand.holds env state
    let last := (Int64.ofNat total).toInt - 1
    Run.change fun m => { m with channels := m.channels.set (max 0 (min last i.toInt)).toNat on }

/-- The time that a frame is held. -/
def holdTime : Option Operand → Run Duration
  | none => Run.read Machine.baseDelay
  | some delay => do
    match ← attempt (Operand.evalInt env delay) with
    | some ms => pure (.ofMillis ms.toInt.toNat)
    | none => Run.read Machine.baseDelay

/-- Sleeps for a time that has to be computed first: records a frame that is held for it. -/
def sleepFor (time : Run Duration) : Run Unit := do
  Run.change Machine.beginSleep
  let d ← time
  Run.change fun m => m.endSleep.capture d none

/-- The label of the frame that shows every channel switched. -/
def switchLabel (on : Bool) : String := if on then "All ON" else "All OFF"

/-- Switches every channel, which is recorded at once. -/
def switchAll (on : Bool) : Run Unit :=
  Run.change fun m => { m with channels := m.channels.fill on }.capture m.baseDelay (some (switchLabel on))

/-- The first value of a scalar. -/
def scalarValue : Initializer → Run Value
  | .none => pure (.int 0)
  | .scalar o => Operand.valueOrZero env o
  | .rows rows =>
    match rows.head?.bind List.head? with
    | some o => Operand.valueOrZero env o
    | none => pure (.int 0)

/-- The sizes of an array, nothing for one that is left open or has no value that a size can have. -/
def arraySizes : List Operand → Run (List (Option Nat))
  | [] => pure []
  | o :: os => do
    let size ← if o.text = "" then pure none else attempt (Operand.evalInt env o)
    let sizes ← arraySizes os
    let size := size.bind fun n => if 0 ≤ n.toInt then some n.toInt.toNat else none
    pure (size :: sizes)

/-- Stores the values of a row, one after another.  A place beyond the array ends the row, and the run fails if it is
no word.  The places of an array are words, having elements. -/
def fillRow (a : TypedArray) (place : Nat) : List Operand → Run TypedArray
  | [] => pure a
  | o :: os =>
    if a.data.size ≤ place then do
      Run.change fun m => m.require (.place place)
      pure a
    else do
      let v ← Operand.valueOrZero env o
      fillRow (a.store place v) (place + 1) os

/-- Stores the values of rows that begin `stride` places apart. -/
def fillRows (stride : Nat) (a : TypedArray) (place : Nat) : List (List Operand) → Run TypedArray
  | [] => pure a
  | row :: rows => do
    let a ← fillRow env a place row
    fillRows stride a (place + stride) rows

/-- The number of rows and columns of an array with the given sizes and values. -/
def arrayShape? (sizes : List (Option Nat)) (rows : List (List Operand)) : Option (Nat × Nat) :=
  match sizes with
  | [n] => some (1, n.getD rows.flatten.length)
  | [r, c] => some (r.getD rows.length, c.getD ((rows.map List.length).foldl max 0))
  | _ => none

/-- Stores the first values of an array.  A single list, and any list for a single row, fills the array from the
front; otherwise every row fills a row, as far as that has columns. -/
def fillArray (a : TypedArray) (rows : List (List Operand)) : Run TypedArray :=
  if a.rows = 1 ∨ rows.length = 1 then
    fillRows env ((rows.map List.length).foldl max 0) a 0 rows
  else fillRows env a.cols a 0 (rows.map fun row => row.take a.cols)

/-- Declares an array.  Arrays are known everywhere. -/
def declareArray (d : VarDecl) : Run Unit := do
  let rows := match d.initializer with
    | .rows rows => rows
    | _ => []
  let sizes ← arraySizes env d.sizes
  match arrayShape? sizes rows with
  | none => pure ()
  | some (r, c) =>
    if maxArrayLength < r * c then pure ()
    else
      let a ← fillArray env (.zeroed r c d.kind) rows
      Run.change fun m => { m with arrays := m.arrays.set d.name a }

/-- Declares a variable or an array. -/
def declareVar (d : VarDecl) : Run Unit := do
  if d.isArray then declareArray env d
  else
    let v ← scalarValue env d.initializer
    Run.change fun m => m.declare d.name d.kind d.isConst v

end

/-- The operator that an assignment applies to the old value and the new one. -/
def binary? : AssignOp → Option BinaryOp
  | .set => none
  | .add | .increment => some .add
  | .sub | .decrement => some .sub
  | .mul => some .mul
  | .div => some .div
  | .rem => some .rem

/-- The value that an assignment stores; an operator that fails gives zero. -/
def assigned (op : AssignOp) (old new : Value) : Value :=
  match binary? op with
  | none => new
  | some b => (b.apply .integer old new).toOption.getD (.int 0)

section

variable (env : Environment Eval)

/-- The values of indices, up to the first that has none. -/
def evalPlace : List Operand → Eval (List Int64)
  | [] => pure []
  | o :: os => do
    let n ← Operand.evalInt env o
    let ns ← evalPlace os
    pure (n :: ns)

/-- Changes an element of an array; what is no array, or no place in it, is left alone. -/
def assignElement (target : String) (indices : List Operand) (op : AssignOp) (new : Value) : Run Unit := do
  match ← attempt (evalPlace env indices) with
  | none => pure ()
  | some place =>
    Run.change fun m => m.modifyArray target fun a =>
      a.set place (assigned op ((a.get? place).getD (.int 0)) new)

/-- Changes a variable. -/
def assignScalar (target : String) (op : AssignOp) (new : Value) : Run Unit := do
  let old ← Run.read fun m => m.lookup target
  Run.change fun m => m.assign target (assigned op (old.toOption.getD (.int 0)) new)

/-- Changes a variable or an element.  Without a value it is one more or less. -/
def assign (target : String) (indices : List Operand) (op : AssignOp) (value : Option Operand) : Run Unit := do
  let new ← match value with
    | some o => Operand.valueOrZero env o
    | none => pure (.int 1)
  if indices.isEmpty then assignScalar target op new
  else assignElement env target indices op new

/-- Calls a function for what it does. -/
def callFor (name : String) (args : List Operand) : Run Unit := do
  let _ ← attempt (env.call name (args.map (Operand.argument env)))
  pure ()

/-- Runs a simple statement. -/
def act : Action → Run Unit
  | .set channel state => setChannel env channel state
  | .sleep delay => sleepFor (holdTime env delay)
  | .allOn => switchAll true
  | .allOff => switchAll false
  | .declare d => declareVar env d
  | .assign target indices op value => assign env target indices op value
  | .callBuiltin b args => callFor env b.name args
  | .callUser name args => callFor env name args

end

/-! ### Loops -/

/-- The passes of a counted loop that are left, from pass `k` on. -/
def countedPasses (body : Run Flow) (valueAt : Nat → Int64) : (left : Nat) → (k : Nat) → Run Flow
  | 0, _ => pure .normal
  | left + 1, k => do
    if ← Machine.tick then
      Run.change fun m => m.setLoopVar (valueAt k)
      match ← body with
      | .normal => countedPasses body valueAt left (k + 1)
      | flow => pure flow
    else pure .halt

/-- The passes of a loop that is tested at its end. -/
def testedPasses (body : Run Flow) (again : Run Bool) : (fuel : Nat) → Run Flow
  | 0 => do
    Run.change Machine.exhaust
    pure .halt
  | fuel + 1 => do
    match ← body with
    | .normal =>
      if ← Machine.tick then
        if ← again then testedPasses body again fuel else pure .normal
      else pure .halt
    | flow => pure flow

/-- Runs a loop that is tested at its end.  Every pass but the first is admitted work, so the work that is left bounds
their number. -/
def runTested (body : Run Flow) (again : Run Bool) : Run Flow := do
  let left ← Run.read Machine.workLeft
  testedPasses body again (left + 1)

/-- The first value, the bound and the step of a counted loop.  A loop whose bound has no value has none; a step
that has no value or is not positive is one. -/
def loopRange (env : Environment Eval) (h : LoopHeader) : Run (Option (Int64 × Int64 × Int64)) := do
  let start ← Operand.valueOrZero env h.start
  match ← attempt (Operand.evalInt env h.bound) with
  | none => pure none
  | some bound => do
    let step ← orElse (Operand.evalInt env h.step) 1
    pure (some (start.asInt.toOption.getD 0, bound, if 0 < step.toInt then step else 1))

/-- Runs the passes of a loop with its variable, having raised the limit by the work that they do. -/
def inLoop (credit : Nat) (l : LoopVar) (passes : Run Flow) : Run Flow := do
  Run.change fun m => (m.grant credit).pushLoop l
  let flow ← passes
  Run.change Machine.popLoop
  pure flow

/-- Runs a counted loop whose body does `cost` work in one pass. -/
def runLoop (env : Environment Eval) (h : LoopHeader) (cost : Nat) (body : Run Flow) : Run Flow := do
  match ← loopRange env h with
  | none => pure .normal
  | some (start, bound, step) =>
    let n := h.passes start bound step
    inLoop (n * (1 + cost)) ⟨h.var, start⟩ (countedPasses body (h.valueAt start step) n 0)

/-! ### Statements -/

mutual

/-- Runs a statement. -/
def execStmt (env : Environment Eval) : Stmt → Run Flow
  | .act a => do
    act env a
    return if ← Run.read Machine.halted then .halt else .normal
  | .ret none => pure (.ret none)
  | .ret (some o) => do
    let v ← Operand.valueOrZero env o
    pure (.ret (some v))
  | .loop h body => runLoop env h (bodyCost body) (execBlock env body)
  | .branch c yes no => do
    if ← Operand.holds env c then execBlock env yes else execBlock env no
  | .doLoop body c =>
    runTested (execBlock env body) <|
      match c with
      | some c => Operand.holds env c
      | none => pure false
  | .lambda name _ params body => do
    Run.change fun m => { m with functions := m.functions.set name ⟨name, params, body, true⟩ }
    pure .normal

/-- Runs statements one after another, up to the first that does not end normally. -/
def execBlock (env : Environment Eval) : List Stmt → Run Flow
  | [] => pure .normal
  | s :: ss => do
    if ← Machine.tick then
      match ← execStmt env s with
      | .normal => execBlock env ss
      | flow => pure flow
    else pure .halt

end

/-! ### Calls -/

/-- The name of the array that an argument passes, if it passes one. -/
def passedArray? (arg : Arg) (m : Machine) : Option String :=
  match arg.tree.ident? with
  | some name => if (m.array? name).isSome then some (m.arrayName name) else none
  | none => none

/-- Gives the parameters what the arguments pass, from left to right: another name for an array, or a value.  A
parameter without an argument is zero. -/
def bindParams (a : Activation) : List String → List Arg → Eval Activation
  | [], _ => pure a
  | p :: ps, [] => bindParams { a with locals := a.locals.set p ⟨none, false, .int 0⟩ } ps []
  | p :: ps, arg :: args => do
    match ← Eval.read fun m => .ok (passedArray? arg m) with
    | some target => bindParams { a with aliases := a.aliases.set p target } ps args
    | none => do
      let v ← arg.value
      bindParams { a with locals := a.locals.set p ⟨none, false, v⟩ } ps args

/-- Runs statements in an activation of their own, which is gone afterwards. -/
def inCall (a : Activation) (body : Run Flow) : Run Flow := do
  Run.change fun m => m.pushCall a
  let flow ← body
  Run.change Machine.popCall
  pure flow

/-- Runs the body of a function. -/
def runBody (env : Environment Eval) (body : List Stmt) (a : Activation) : Run Value := do
  match ← inCall a (execBlock env body) with
  | .ret (some v) => pure v
  | _ => pure (.int 0)

/-- Runs a function.  The `fuel` is above the number of calls that may still become active. -/
def invoke : (fuel : Nat) → Closure → List Arg → Eval Value
  | 0, _, _ => do
    Eval.change Machine.exhaust
    settle (.error .callDepth)
  | fuel + 1, f, args => do
    let depth ← Eval.read fun m => .ok m.calls.length
    if maxCalls ≤ depth then settle (.error .callDepth)
    else
      let a ← bindParams { Activation.empty with transparent := f.isLambda } f.params args
      ExceptT.lift (runBody (environment (invoke fuel)) f.body a)

/-- The environment of the statements of a program. -/
def programEnvironment : Environment Eval := environment (invoke (maxCalls + 1))

/-- Makes the functions of a program known; of two with one name the later one. -/
def defineFunctions (m : Machine) (fs : List FunctionDef) : Machine :=
  { m with functions := fs.foldl (fun b f => b.set f.name ⟨f.name, f.params, f.body, false⟩) m.functions }

/-- Runs a program: its statements, and then its entry function if it has one and the statements ended normally. -/
def runProgram (p : Program) : Run Unit := do
  Run.change fun m => defineFunctions m p.functions
  match ← execBlock programEnvironment p.body with
  | .normal =>
    match p.entry? with
    | some f => do
      let _ ← attempt (invoke (maxCalls + 1) ⟨f.name, f.params, f.body, false⟩ [])
      pure ()
    | none => pure ()
  | _ => pure ()

end RunningLights.Procedure
