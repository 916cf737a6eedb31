import RunningLights.Frame.Basic
import RunningLights.Procedure.Bindings
import RunningLights.Procedure.Program
import RunningLights.Procedure.Random
import RunningLights.Procedure.Storage

/-!
# The state of a run

A run changes one `Machine`: the channels, the recorded frames, the variables of the active calls, the arrays and
functions, and the account of its work.

A call of a function sees its own variables and those of the program; a call of a lambda sees what its caller sees.
Arrays are shared by all; a parameter that was given an array is another name for it.

* `Machine.tick` — one unit of work; the run halts when the limit is exceeded;
* `Machine.capture` — one frame; the run halts when the cap refuses it;
* `Machine.require` — an operation on words that nothing has checked; the run fails when its result is no word.
-/

namespace RunningLights.Procedure

/-- A variable.  One without a kind holds any value. -/
structure Slot where
  kind : Option VarKind
  isConst : Bool
  value : Value
  deriving Inhabited

/-- The variable of a counted loop that is running. -/
structure LoopVar where
  name : String
  value : Int64
  deriving Repr, DecidableEq, Inhabited

/-- An active call, or the program itself. -/
structure Activation where
  locals : Bindings Slot
  /-- The variables of the loops that are running, the innermost first. -/
  loops : List LoopVar
  /-- The parameters that stand for arrays, with the names of those. -/
  aliases : Bindings String
  transparent : Bool
  deriving Inhabited

/-- A function or lambda that can be called. -/
structure Closure where
  name : String
  params : List String
  body : List Stmt
  isLambda : Bool
  deriving Inhabited

/-- Where a run stood when it halted. -/
structure Halt where
  frames : Array Frame
  /-- The sleeps that were waiting for the value of their delay. -/
  sleeps : Nat
  deriving Repr, DecidableEq, Inhabited

/-- An operation on machine words that is carried out unchecked. -/
inductive WordOperation where
  /-- The count of the work that has been asked for. -/
  | count (work : Nat)
  /-- The place of a value that a declaration stores. -/
  | place (n : Nat)
  /-- The index behind elements that are appended to those in use. -/
  | behind (used added : Nat)
  deriving Repr, DecidableEq, Inhabited

namespace WordOperation

/-- The exact result is a word: counts and places have no sign, an index is a number of the program. -/
def Fits : WordOperation → Prop
  | count work => work < Number.wordBound
  | place n => n < Number.wordBound
  | behind used added => Number.Fits (used + added)

instance : DecidablePred Fits
  | count _ => inferInstanceAs (Decidable (_ < _))
  | place _ => inferInstanceAs (Decidable (_ < _))
  | behind _ _ => inferInstanceAs (Decidable (Number.Fits _))

/-- The operation as the one that made a run fail, if it does. -/
def failure? (op : WordOperation) : Option WordOperation := if op.Fits then none else some op

end WordOperation

/-- The state of a run. -/
structure Machine where
  channels : Channels
  recorder : Recorder
  /-- The active calls, the innermost first. -/
  calls : List Activation
  /-- The variables of the program itself. -/
  root : Activation
  arrays : Bindings TypedArray
  functions : Bindings Closure
  generator : Generator
  /-- The work that has been asked for. -/
  work : Nat
  limit : Nat
  limitHit : Bool
  /-- The answers to those who asked for work while the run lived, the last one first. -/
  answers : List Bool
  /-- The sleeps that are waiting for the value of their delay. -/
  sleeps : Nat
  /-- Where the run reached the limit or the frame cap, if it has. -/
  halt : Option Halt
  /-- A loop or a call ended because its fuel was used up, which never happens. -/
  exhausted : Bool
  /-- The first operation whose result was no word.  The run ended there, and nothing comes of it. -/
  failed : Option WordOperation
  total : Nat
  baseDelay : Duration
  deriving Inhabited

/-- The calls that may be active at once. -/
def maxCalls : Nat := 64

/-- The work up to which counted loops raise the limit. -/
def maxWork : Nat := 250000

/-- The names of the number of channels. -/
def totalNames : List String := ["pin_size_", "config_data_ptr_->header.pin_size_", "totalChannels"]

/-- The names of the base delay. -/
def delayNames : List String := ["delay_time_", "channel_data_.delay_time_"]

/-- The names of the array of all channel numbers. -/
def channelMapNames : List String := ["pin_ptr_", "config_data_ptr_->header.pin_ptr_"]

/-- Stores a value in a variable, unless it is constant. -/
def Slot.assign (s : Slot) (v : Value) : Slot :=
  if s.isConst then s else { s with value := VarKind.convert? s.kind v }

namespace Activation

def empty : Activation := ⟨[], [], [], false⟩

/-- The value of a variable: that of a loop, the innermost first, or a local one. -/
def get? (a : Activation) (name : String) : Option Value :=
  match a.loops.find? fun l => l.name == name with
  | some l => some (.int l.value)
  | none => (a.locals.get? name).map Slot.value

/-- Sets the innermost loop variable of the name. -/
def setLoop (name : String) (n : Int64) : List LoopVar → List LoopVar
  | [] => []
  | l :: ls => if l.name == name then { l with value := n } :: ls else l :: setLoop name n ls

/-- The integer that is stored in a loop variable. -/
def loopInt (v : Value) : Int64 :=
  match VarKind.integer.convert v with
  | .int n => n
  | _ => 0

/-- Stores a value in a variable of the activation, if it has one of the name. -/
def assign? (a : Activation) (name : String) (v : Value) : Option Activation :=
  if a.loops.any fun l => l.name == name then some { a with loops := setLoop name (loopInt v) a.loops }
  else if a.locals.binds name then
    some { a with locals := a.locals.modify name fun s => s.assign v }
  else none

end Activation

namespace Machine

/-- The state at the start of a run. -/
def start (total : Nat) (baseDelay : Duration) (cap limit seed : Nat) : Machine where
  channels := .blank total
  recorder := .empty "proc" cap
  calls := []
  root := .empty
  arrays := []
  functions := []
  generator := .ofSeed seed
  work := 0
  limit := limit
  limitHit := false
  answers := []
  sleeps := 0
  halt := none
  exhausted := false
  failed := none
  total := total
  baseDelay := baseDelay

/-! ### Work and frames -/

/-- Raises the limit, up to the ceiling.  A limit above the ceiling stays. -/
def grant (m : Machine) (credit : Nat) : Machine :=
  { m with limit := min (m.limit + credit) (max maxWork m.limit) }

/-- The run is over. -/
def halted (m : Machine) : Bool := m.halt.isSome

/-- Ends the run, unless it is over. -/
def stop (m : Machine) : Machine := if m.halted then m else { m with halt := some ⟨m.recorder.frames, m.sleeps⟩ }

/-- Carries out an operation on words.  The run fails if the result is none. -/
def require (m : Machine) (op : WordOperation) : Machine := { m with failed := m.failed.or op.failure? }

theorem require_of_fits {m : Machine} {op : WordOperation} (h : op.Fits) : m.require op = m := by
  rw [require, WordOperation.failure?, if_pos h, Option.or_none]

/-- Asks for one unit of work.  The answer is no once the run has halted.  Work within the limit can be counted, as the
limit is a word. -/
def tick (m : Machine) : Bool × Machine :=
  if m.halted then (false, m)
  else if m.limit < m.work + 1 then
    let m := m.require (.count (m.work + 1))
    (false, { m with work := m.work + 1, limitHit := true, answers := false :: m.answers }.stop)
  else (true, { m with work := m.work + 1, answers := true :: m.answers })

/-- A loop or a call ends because its fuel is used up. -/
def exhaust (m : Machine) : Machine := { m with exhausted := true }

/-- The work that may still be admitted, whatever the loops to come grant. -/
def workLeft (m : Machine) : Nat := max maxWork m.limit - m.work

/-- Records a frame.  If the cap refuses it, the run has halted. -/
def capture (m : Machine) (delay : Duration) (label : Option String) : Machine :=
  let m := if m.recorder.isFull then m.stop else m
  { m with recorder := m.recorder.capture m.channels delay label }

/-- Starts to compute the delay of a sleep. -/
def beginSleep (m : Machine) : Machine := { m with sleeps := m.sleeps + 1 }

/-- The delay of a sleep is known. -/
def endSleep (m : Machine) : Machine := { m with sleeps := m.sleeps - 1 }

/-! ### Variables -/

/-- The innermost activation. -/
def current (m : Machine) : Activation :=
  match m.calls with
  | [] => m.root
  | a :: _ => a

/-- Changes the innermost activation. -/
def modifyCurrent (m : Machine) (f : Activation → Activation) : Machine :=
  match m.calls with
  | [] => { m with root := f m.root }
  | a :: rest => { m with calls := f a :: rest }

/-- Starts a call. -/
def pushCall (m : Machine) (a : Activation) : Machine := { m with calls := a :: m.calls }

/-- Ends the innermost call. -/
def popCall (m : Machine) : Machine := { m with calls := m.calls.tail }

/-- Starts a loop in the innermost activation. -/
def pushLoop (m : Machine) (l : LoopVar) : Machine := m.modifyCurrent fun a => { a with loops := l :: a.loops }

/-- Ends the innermost loop of the innermost activation. -/
def popLoop (m : Machine) : Machine := m.modifyCurrent fun a => { a with loops := a.loops.tail }

/-- Sets the variable of the innermost loop of the innermost activation. -/
def setLoopVar (m : Machine) (n : Int64) : Machine :=
  m.modifyCurrent fun a =>
    match a.loops with
    | [] => a
    | l :: ls => { a with loops := { l with value := n } :: ls }

/-- The activations of the list that are seen from its first one, before the program itself: lambdas, and the
function that they were called from. -/
def visibleCalls : List Activation → List Activation
  | [] => []
  | a :: rest => if a.transparent then a :: visibleCalls rest else [a]

/-- The activations that are seen, the innermost first and the program itself last. -/
def visible (m : Machine) : List Activation := visibleCalls m.calls ++ [m.root]

/-- A name that stands for something in every run. -/
def constant? (m : Machine) (name : String) : Option Value :=
  if totalNames.contains name then some (.int (Int64.ofNat m.total))
  else if delayNames.contains name then some (.int (Int64.ofNat m.baseDelay.wholeMillis))
  else if name = "HIGH" then some (.int 1)
  else if name = "LOW" then some (.int 0)
  else none

/-- The value of a name. -/
def lookup (m : Machine) (name : String) : Except EvalError Value :=
  match m.visible.findSome? fun a => a.get? name with
  | some v => .ok v
  | none =>
    match m.constant? name with
    | some v => .ok v
    | none => .error (.unknownIdentifier name)

/-- Stores a value in the variable that is seen among the calls or in the program, if there is one. -/
def assignVisible (name : String) (v : Value) (root : Activation) : List Activation →
    Option (List Activation × Activation)
  | [] => (root.assign? name v).map fun root => ([], root)
  | a :: rest =>
    match a.assign? name v with
    | some a => some (a :: rest, root)
    | none =>
      if a.transparent then (assignVisible name v root rest).map fun (rest, root) => (a :: rest, root)
      else (root.assign? name v).map fun root => (a :: rest, root)

/-- Makes a variable of the innermost activation. -/
def define (m : Machine) (name : String) (s : Slot) : Machine :=
  m.modifyCurrent fun a => { a with locals := a.locals.set name s }

/-- Stores a value in the variable that is seen, or in a new one of the innermost activation. -/
def assign (m : Machine) (name : String) (v : Value) : Machine :=
  match assignVisible name v m.root m.calls with
  | some (calls, root) => { m with calls, root }
  | none => m.define name ⟨none, false, v⟩

/-- Declares a variable of the innermost activation. -/
def declare (m : Machine) (name : String) (kind : VarKind) (isConst : Bool) (v : Value) : Machine :=
  m.define name ⟨some kind, isConst, kind.convert v⟩

/-! ### Arrays -/

/-- The name of the array that a name stands for. -/
def arrayName (m : Machine) (name : String) : String :=
  m.visible.foldl (fun n a => (a.aliases.get? n).getD n) name

/-- The array that a name stands for. -/
def array? (m : Machine) (name : String) : Option TypedArray := m.arrays.get? (m.arrayName name)

/-- Changes the array that a name stands for. -/
def modifyArray (m : Machine) (name : String) (f : TypedArray → TypedArray) : Machine :=
  let name := m.arrayName name
  { m with arrays := m.arrays.modify name f }

/-- The value of an element. -/
def element (m : Machine) (name : String) (indices : List Int64) : Except EvalError Value :=
  let outside : EvalError := .indexOutOfBounds name (indices.head?.getD 0)
  match m.array? name with
  | some a =>
    match a.get? indices with
    | some v => .ok v
    | none => .error outside
  | none =>
    if channelMapNames.contains name then
      match indices with
      | [i] => if 0 ≤ i.toInt ∧ i.toInt < (Int64.ofNat m.total).toInt then .ok (.int i) else .error outside
      | _ => .error outside
    else .error (.notAnArray name)

/-- An array as integers; the array of all channel numbers is one too. -/
def ints (m : Machine) (name : String) : Except EvalError (List Int64) :=
  match m.array? name with
  | some a => .ok a.ints
  | none =>
    if channelMapNames.contains name then .ok ((List.range m.total).map Int64.ofNat) else .error (.notAnArray name)

/-! ### Functions -/

/-- The function or lambda that a name stands for. -/
def function (m : Machine) (name : String) : Except EvalError Closure :=
  match m.functions.get? name with
  | some f => .ok f
  | none => .error (.unknownFunction name)

theorem function_of_none {m : Machine} {name : String} (h : m.functions.get? name = none) :
    m.function name = .error (.unknownFunction name) := by
  rw [function, h]

end Machine

end RunningLights.Procedure
