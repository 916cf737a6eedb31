import RunningLights.Expr.Eval
import RunningLights.Procedure.Machine

/-!
# What names and calls mean in a run

The environment of the expressions of a program: names and elements are read from the machine, and a call runs a
library function or hands a function of the program to whoever can run it.
-/

namespace RunningLights.Procedure

/-- A computation that changes the machine. -/
abbrev Run := StateM Machine

/-- A computation that changes the machine and may have no value.  What it changed before it failed stays
changed. -/
abbrev Eval := ExceptT EvalError Run

/-- An argument of a call in a program. -/
abbrev Arg := Argument Eval

namespace Eval

/-- A value that is read from the machine. -/
@[inline] def read {α : Type} (f : Machine → Except EvalError α) : Eval α := fun m => (f m, m)

/-- A change of the machine. -/
@[inline] def change (f : Machine → Machine) : Eval Unit := fun m => (.ok (), f m)

/-- What is drawn from the generator of the machine. -/
def draw {α : Type} (f : Generator → α × Generator) : Eval α := fun m =>
  let drawn := f m.generator
  (.ok drawn.1, { m with generator := drawn.2 })

/-- The value of an argument as an integer. -/
def int (arg : Arg) : Eval Int64 := do
  let v ← arg.value
  settle v.asInt

/-- The values of arguments, from left to right. -/
def values : List Arg → Eval (List Value)
  | [] => pure []
  | arg :: args => do
    let v ← arg.value
    let vs ← values args
    pure (v :: vs)

/-- The values as integers. -/
def ints : List Value → Except EvalError (List Int64)
  | [] => .ok []
  | v :: vs =>
    match v.asInt with
    | .error e => .error e
    | .ok n => (ints vs).map (n :: ·)

/-- The word of an exact value. -/
def word (n : Int) : Except EvalError Int64 :=
  match Number.fit? n with
  | some x => .ok x
  | none => .error .overflow

/-- A variable that is passed to a library function by its name. -/
def reference (b : Builtin) (arg : Arg) : Except EvalError String :=
  match arg.tree.ident? with
  | some name => .ok name
  | none => .error (.expectedReference b.name)

end Eval

/-! ### Library functions on variables -/

/-- Sets the counters to zero, up to the first that is no name. -/
def resetCounters (b : Builtin) : List Arg → Eval Unit
  | [] => pure ()
  | arg :: args => do
    let name ← settle (Eval.reference b arg)
    Eval.change fun m => m.assign name (.int 0)
    resetCounters b args

/-- Fills an array with zeros and sets counters to zero. -/
def resetArray (args : List Arg) : Eval Value :=
  match args with
  | [] => settle (.error (.arity Builtin.resetArray.name 3 0))
  | array :: counters => do
    let name ← settle (Eval.reference .resetArray array)
    Eval.change fun m => m.modifyArray name TypedArray.reset
    resetCounters .resetArray counters
    pure (.int 0)

/-- The segment sizes that an argument stands for: an array of several rows, or else the built-in matrix. -/
def segmentRows (m : Machine) (arg : Arg) : List (List Int64) :=
  match (arg.tree.ident?).bind m.array? with
  | some a => if 1 < a.rows then a.intRows else Library.matrix
  | none => Library.matrix

/-- Stores numbers one after another. -/
def putAll (a : TypedArray) (place : Nat) : List Int64 → TypedArray
  | [] => a
  | n :: ns => putAll (a.put place (.int n)) (place + 1) ns

/-- Appends a segment to an array behind its last used element, and moves the index of that element on.  The value
is the number of elements appended.  The run fails if the index is no word. -/
def appendSegment (found : List Int64) (array last : String) : Eval Value := do
  if found.isEmpty then pure (.int 0)
  else
    let v ← Eval.read fun m => m.lookup last
    let n ← settle v.asInt
    let start := n.toInt.toNat
    let known ← Eval.read fun m => .ok (m.array? array).isSome
    if known then
      Eval.change fun m => m.modifyArray array fun a => putAll a start found
      Eval.change fun m => m.require (.behind start found.length)
      let moved ← settle (Eval.word (start + found.length))
      Eval.change fun m => m.assign last (.int moved)
      pure (.int (Int64.ofNat found.length))
    else settle (.error (.notAnArray array))

/-- Appends the channels of one segment of the strip to an array.  The arguments are the segment sizes and the
number of their rows, the channels and their number, the array and the index of its last used element, the segment,
and perhaps whether its order is reversed. -/
def shiftByOrder (args : List Arg) : Eval Value :=
  match args with
  | sizes :: rows :: main :: mainSize :: array :: last :: target :: reverse =>
    if 1 < reverse.length then settle (.error (.arity Builtin.shiftByOrder.name 7 args.length))
    else do
      let table ← Eval.read fun m => .ok (segmentRows m sizes)
      let rowLimit ← Eval.int rows
      let mainName ← settle (Eval.reference .shiftByOrder main)
      let channels ← Eval.read fun m => m.ints mainName
      let size ← Eval.int mainSize
      let arrayName ← settle (Eval.reference .shiftByOrder array)
      let lastName ← settle (Eval.reference .shiftByOrder last)
      let segment ← Eval.int target
      let reversed ← match reverse with
        | [] => pure false
        | arg :: _ => do
          let v ← arg.value
          pure v.truthy
      let found := Library.segment (table.take rowLimit.toInt.toNat) channels size segment reversed
      appendSegment found arrayName lastName
  | _ => settle (.error (.arity Builtin.shiftByOrder.name 7 args.length))

/-! ### Library functions on values -/

/-- The least or the greatest of two values, compared as floats; the first of two that are equal. -/
def extreme (b : Builtin) (v w : Value) : Value :=
  let first := if b = .min then v.toFloat ≤ w.toFloat else w.toFloat ≤ v.toFloat
  if first then v else w

/-- A random number below a bound, or between two. -/
def randomNumber : List Value → Eval Value
  | [max] => do
    let max ← settle max.asInt
    let n ← Eval.draw fun g => g.below max
    pure (.int n)
  | [min, max] => do
    let min ← settle min.asInt
    let max ← settle max.asInt
    let n ← Eval.draw fun g => g.between min max
    settle (n.map .int)
  | vs => settle (.error (.arity Builtin.random.name 1 vs.length))

/-- The value of a library function that neither reads nor changes the machine. -/
def applyBuiltin (b : Builtin) (vs : List Value) : Except EvalError Value :=
  match b, vs with
  | .findMax, vs => (Eval.ints vs).map fun ns => .int ((Library.findMax? ns).getD (-1))
  | .min, [v, w] => .ok (extreme .min v w)
  | .min, vs => .error (.arity Builtin.min.name 2 vs.length)
  | .max, [v, w] => .ok (extreme .max v w)
  | .max, vs => .error (.arity Builtin.max.name 2 vs.length)
  | .map, [x, a, b, c, d] => Library.mapRange x a b c d
  | .map, vs => .error (.arity Builtin.map.name 5 vs.length)
  | .constrain, [v, low, high] => .ok (Library.constrain v low high)
  | .constrain, vs => .error (.arity Builtin.constrain.name 3 vs.length)
  | .ceil, [v] => Library.ceil v
  | .floor, [v] => Library.floor v
  | .abs, [v] => Library.abs v
  | b, vs => .error (.arity b.name 1 vs.length)

/-- Runs a library function. -/
def callBuiltin (b : Builtin) (args : List Arg) : Eval Value :=
  match b with
  | .resetArray => resetArray args
  | .shiftByOrder => shiftByOrder args
  | .random => do
    let vs ← Eval.values args
    randomNumber vs
  | b => do
    let vs ← Eval.values args
    settle (applyBuiltin b vs)

/-! ### The environment -/

/-- The environment of a run in which `invoke` runs the functions of the program. -/
def environment (invoke : Closure → List Arg → Eval Value) : Environment Eval where
  lookup name := Eval.read fun m => m.lookup name
  element name indices := Eval.read fun m => m.element name indices
  call name args :=
    match Builtin.ofName? name with
    | some b => callBuiltin b args
    | none => do
      let f ← Eval.read fun m => m.function name
      invoke f args

/-! ### Operands -/

/-- The value of an operand. -/
def Operand.eval (env : Environment Eval) (o : Operand) : Eval Value :=
  match o.tree with
  | some e => e.eval env .integer
  | none => settle (.error (.unsupported s!"unparseable expression '{o.text}'"))

/-- The value of an operand as an integer. -/
def Operand.evalInt (env : Environment Eval) (o : Operand) : Eval Int64 := do
  let v ← Operand.eval env o
  settle v.asInt

/-- What a computation gives, or else the fallback. -/
def orElse {α : Type} (x : Eval α) (fallback : α) : Run α := do
  match ← x.run with
  | .ok a => pure a
  | .error _ => pure fallback

/-- What a computation gives, if it gives anything. -/
def attempt {α : Type} (x : Eval α) : Run (Option α) := do
  match ← x.run with
  | .ok a => pure (some a)
  | .error _ => pure none

/-- The value of an operand, zero if it has none. -/
def Operand.valueOrZero (env : Environment Eval) (o : Operand) : Run Value :=
  orElse (Operand.eval env o) (.int 0)

/-- The truth of an operand; what has no value is not true. -/
def Operand.holds (env : Environment Eval) (o : Operand) : Run Bool :=
  orElse (do
    let v ← Operand.eval env o
    pure v.truthy) false

/-- An operand as the argument of a call; what is no expression counts as zero. -/
def Operand.argument (env : Environment Eval) (o : Operand) : Arg :=
  let e := o.tree.getD (.literal (.int 0))
  ⟨e, e.eval env .integer⟩

end RunningLights.Procedure
