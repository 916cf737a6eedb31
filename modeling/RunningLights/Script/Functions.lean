import RunningLights.Procedure.Library
import RunningLights.Script.Operators

/-!
# The functions that scripts may call

A function is found by its name and the types of its arguments; numbers are not converted for it.  There are three
kinds: requests to the strip, functions of values alone, and methods that change an array.

* `Functions.request?` — what a call asks of the strip;
* `Functions.value?` — the value of a call;
* `Functions.method?` — what a method makes of an array.
-/

namespace RunningLights.Script

namespace Functions

/-! ### Requests -/

/-- A state as it may be given: a truth value, or a number that is zero for off. -/
def state? : Datum → Option Bool
  | .bool b => some b
  | .int n => some (n != 0)
  | _ => none

/-- A channel number; that of a float is cut off at the point. -/
def channel? : Datum → Option Int64
  | .int n => some n
  | .float x => some (Number.wordOf (Number.truncate x))
  | _ => none

/-- A number of milliseconds; a float is rounded. -/
def millis? : Datum → Option Int64
  | .int n => some n
  | .float x => some (Number.wordOf x.round)
  | _ => none

/-- The functions that set all channels. -/
def fill? : String → Option Bool
  | "all_on" => some true
  | "on" => some true
  | "all_off" => some false
  | "off" => some false
  | _ => none

/-- The request that a call is, if it is one.  Random channels are drawn from the candidates. -/
def request? (candidates : Unit → List Nat) (name : String) (args : List Datum) : Option Request :=
  match args with
  | [] => (fill? name).map .fill
  | [d] =>
    match name with
    | "pause_for" => (millis? d).map .pause
    | "sleep" => (millis? d).map .pause
    | "set_wave_led" => (state? d).map fun on => .wave on false
    | "set_wave_led_reverse" => (state? d).map fun on => .wave on true
    | "set_random_led" => (state? d).map fun on => .scatter on (candidates ())
    | _ => none
  | [i, d] =>
    if name = "set" then
      match channel? i, state? d with
      | some i, some on => some (.set i on)
      | _, _ => none
    else none
  | _ => none

/-! ### Values -/

/-- Moves `x` from the range `a … b` to the range `c … d`. -/
def mapFloats (x a b c d : Float) : Float := if b == a then c else c + (x - a) * (d - c) / (b - a)

/-- The greatest integer of an array but for -1, which is the answer if there is none. -/
def findMax (items : Array Datum) : Int64 :=
  items.foldl (fun m d =>
    match d with
    | .int n => if n ≠ -1 ∧ (m = -1 ∨ m < n) then n else m
    | _ => m) (-1)

/-- The integers from the first to the last at a distance that is not zero. -/
def steppedSpan (first last step : Int64) : Except Failure Datum :=
  if step = 0 then .error (.arithmetic "step value cannot be zero")
  else .ok (.span (.stepped first.toInt last.toInt step.toInt))

/-- The absolute value of an integer. -/
def absInt (n : Int64) : Except Failure Datum :=
  match Number.fit? n.toInt.natAbs with
  | some m => .ok (.int m)
  | none => .error (.arithmetic s!"Negation overflow: -{n.toInt}")

/-- The functions of one integer. -/
def ofInt? (name : String) (n : Int64) : Option (Except Failure Datum) :=
  match name with
  | "ceil" => some (.ok (.int n))
  | "floor" => some (.ok (.int n))
  | "abs" => some (absInt n)
  | "sign" => some (.ok (.int (if n = 0 then 0 else if n < 0 then -1 else 1)))
  | "to_int" => some (.ok (.int n))
  | "to_float" => some (.ok (.float (Number.floatOf n)))
  | "is_zero" => some (.ok (.bool (n == 0)))
  | "is_odd" => some (.ok (.bool (n.toInt % 2 == 1)))
  | "is_even" => some (.ok (.bool (n.toInt % 2 == 0)))
  | _ => none

/-- The functions of one float. -/
def ofFloat? (name : String) (x : Float) : Option Datum :=
  match name with
  | "ceil" => some (.int (Number.wordOf x.ceil))
  | "floor" => some (.int (Number.wordOf x.floor))
  | "ceiling" => some (.float x.ceil)
  | "round" => some (.float x.round)
  | "int" => some (.float (Number.truncate x))
  | "abs" => some (.float x.abs)
  | "sqrt" => some (.float x.sqrt)
  | "to_int" => some (.int (Number.wordOf x))
  | "to_float" => some (.float x)
  | "is_zero" => some (.bool (x == 0))
  | _ => none

/-- The functions of one value of any type. -/
def ofAny? (name : String) (d : Datum) : Option Datum :=
  match name with
  | "print" => some .unit
  | "debug" => some .unit
  | "type_of" => some (.text d.typeName)
  | "to_string" => some (.text d.write)
  | _ => none

/-- The functions of one array or text. -/
def ofWhole? (name : String) (d : Datum) : Option Datum :=
  match name, d with
  | "len", .array items => some (.int (Int64.ofNat items.size))
  | "len", .text s => some (.int (Int64.ofNat s.length))
  | "is_empty", .array items => some (.bool items.isEmpty)
  | "is_empty", .text s => some (.bool s.isEmpty)
  | "find_max", .array items => some (.int (findMax items))
  | _, _ => none

/-- The functions of one value. -/
def ofOne? (name : String) (d : Datum) : Option (Except Failure Datum) :=
  let special := match d with
    | .int n => ofInt? name n
    | .float x => (ofFloat? name x).map .ok
    | d => (ofWhole? name d).map .ok
  special.or ((ofAny? name d).map .ok)

/-- The functions of two values. -/
def ofTwo? (name : String) (a b : Datum) : Option (Except Failure Datum) :=
  match name, a, b with
  | "range", .int a, .int b => some (.ok (.span (.upTo a.toInt b.toInt)))
  | "min", .int a, .int b => some (.ok (.int (if b < a then b else a)))
  | "max", .int a, .int b => some (.ok (.int (if a < b then b else a)))
  | "min", .float a, .float b => some (.ok (.float (Number.lesser a b)))
  | "max", .float a, .float b => some (.ok (.float (Number.greater a b)))
  | "contains", .array items, d => some (.ok (.bool (items.any fun i => i.same d)))
  | _, _, _ => none

/-- The functions of three values. -/
def ofThree? (name : String) (a b c : Datum) : Option (Except Failure Datum) :=
  match name, a, b, c with
  | "range", .int a, .int b, .int c => some (steppedSpan a b c)
  | "constrain", .int v, .int low, .int high =>
    let v := if high < v then high else v
    some (.ok (.int (if v < low then low else v)))
  | "constrain", .float v, .float low, .float high =>
    some (.ok (.float (Number.greater (Number.lesser v high) low)))
  | _, _, _, _ => none

/-- The value of a call of a function that has nothing to do with the strip. -/
def value? (name : String) (args : List Datum) : Option (Except Failure Datum) :=
  match args with
  | [] => if name = "print" ∨ name = "debug" then some (.ok .unit) else none
  | [d] => ofOne? name d
  | [a, b] => ofTwo? name a b
  | [a, b, c] => ofThree? name a b c
  | [.int x, .int a, .int b, .int c, .int d] =>
    if name = "map" then
      some (.ok (.float (mapFloats (Number.floatOf x) (Number.floatOf a) (Number.floatOf b) (Number.floatOf c)
        (Number.floatOf d))))
    else none
  | [.float x, .float a, .float b, .float c, .float d] =>
    if name = "map" then some (.ok (.float (mapFloats x a b c d))) else none
  | _ => none

/-! ### Methods that change an array -/

/-- What a method does to an array: its result, and the array that is left. -/
abbrev Change := Array Datum → Except Failure Datum × Array Datum

/-- A change that makes the array no larger than it may be. -/
def grow (result : Datum) (items : Array Datum) : Except Failure Datum × Array Datum :=
  (if maxItems < items.size then .error .arraySize else .ok result, items)

/-- The place of an index, which counts from the end if it is negative. -/
def place? (index : Int64) (size : Nat) : Option Nat :=
  let i := if index.toInt < 0 then index.toInt + size else index.toInt
  if 0 ≤ i ∧ i < size then some i.toNat else none

/-- The integers of an array; floats are cut off at the point, and what is no number is zero. -/
def ints (items : Array Datum) : List Int64 :=
  items.toList.map fun d =>
    match d with
    | .int n => n
    | .float x => Number.wordOf x
    | _ => 0

/-- The rows of a matrix; what is no array is left out. -/
def rows (items : Array Datum) : List (List Int64) :=
  items.toList.filterMap fun d =>
    match d with
    | .array row => some (ints row)
    | _ => none

/-- Appends the channels of a segment of the strip, and counts them. -/
def shiftByOrder (patterns main : Array Datum) (target : Int64) (reverse : Bool) : Change := fun items =>
  let main := ints main
  let found := Library.segment (rows patterns) main (Int64.ofNat main.length) target reverse
  grow (.int (Int64.ofNat found.length)) (items ++ (found.map Datum.int).toArray)

/-- What a method without arguments does. -/
def bareMethod? : String → Option Change
  | "reset_array" => some fun _ => (.ok .unit, #[])
  | "clear" => some fun _ => (.ok .unit, #[])
  | "pop" => some fun items => (.ok (items.back?.getD .unit), items.pop)
  | "shift" => some fun items => (.ok (items[0]?.getD .unit), items.extract 1 items.size)
  | "reverse" => some fun items => (.ok .unit, items.reverse)
  | _ => none

/-- Puts an item in front of a place; behind the end it comes last. -/
def insertItem (index : Int64) (d : Datum) : Change := fun items =>
  let i := if index.toInt < 0 then (index.toInt + items.size).toNat else index.toInt.toNat
  grow .unit (items.extract 0 i ++ #[d] ++ items.extract i items.size)

/-- Takes an item out. -/
def removeItem (index : Int64) : Change := fun items =>
  match place? index items.size with
  | some i => (.ok (items[i]?.getD .unit), items.extract 0 i ++ items.extract (i + 1) items.size)
  | none => (.ok .unit, items)

/-- What a method makes of an array, if it is one that changes arrays. -/
def method? (name : String) (args : List Datum) : Option Change :=
  match name, args with
  | name, [] => bareMethod? name
  | "push", [d] => some fun items => grow .unit (items.push d)
  | "append", [.array more] => some fun items => grow .unit (items ++ more)
  | "insert", [.int i, d] => some (insertItem i d)
  | "remove", [.int i] => some (removeItem i)
  | "truncate", [.int n] => some fun items => (.ok .unit, items.extract 0 n.toInt.toNat)
  | "shift_array_according_to_order", [.array patterns, .array main, .int target] =>
    some (shiftByOrder patterns main target false)
  | "shift_array_according_to_order", [.array patterns, .array main, .int target, .bool reverse] =>
    some (shiftByOrder patterns main target reverse)
  | _, _ => none

end Functions

end RunningLights.Script
