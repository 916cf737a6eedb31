import RunningLights.Procedure.Command

/-!
# Storage of programs

Variables and arrays hold values of the kind they are declared with: what is stored is converted to that kind.

* `VarKind.HasKind`, `VarKind.hasKind_convert` — a converted value is of the kind;
* `TypedArray.get?_set` — an element has the value that was stored in it last.
-/

namespace RunningLights

/-- The greatest number of elements of an array. -/
def maxArrayLength : Nat := 65536

namespace VarKind

/-- The value as one of the kind. -/
def convert : VarKind → Value → Value
  | .integer, .float x => .int (Number.wordOf x)
  | .integer, .bool b => .int (boolInt b)
  | .integer, v => v
  | .boolean, v => .bool v.truthy
  | .real, v => .float v.toFloat

/-- The value is one of the kind. -/
def HasKind : VarKind → Value → Prop
  | .integer, .int _ => True
  | .boolean, .bool _ => True
  | .real, .float _ => True
  | _, _ => False

theorem hasKind_convert (k : VarKind) (v : Value) : k.HasKind (k.convert v) := by
  cases k <;> cases v <;> trivial

/-- The first value of what is not initialised. -/
def zero (k : VarKind) : Value := k.convert (.int 0)

/-- The value as one of the kind, if there is one. -/
def convert? (k : Option VarKind) (v : Value) : Value :=
  match k with
  | some k => k.convert v
  | none => v

end VarKind

/-- An array of one or two dimensions, stored row after row.  An array of one dimension is one row. -/
structure TypedArray where
  rows : Nat
  cols : Nat
  kind : VarKind
  data : Array Value
  deriving Inhabited

namespace TypedArray

/-- An array of zeros. -/
def zeroed (rows cols : Nat) (kind : VarKind) : TypedArray :=
  ⟨rows, cols, kind, Array.replicate (rows * cols) kind.zero⟩

/-- The place of an element: one index counts through all rows, two are the row and the column. -/
def offset? (a : TypedArray) (indices : List Int64) : Option Nat :=
  let place := match indices with
    | [i] => if 0 ≤ i.toInt then some i.toInt.toNat else none
    | [r, c] =>
      if 0 ≤ r.toInt ∧ 0 ≤ c.toInt ∧ r.toInt.toNat < a.rows ∧ c.toInt.toNat < a.cols then
        some (r.toInt.toNat * a.cols + c.toInt.toNat)
      else none
    | _ => none
  place.bind fun i => if i < a.data.size then some i else none

/-- The element at the indices. -/
def get? (a : TypedArray) (indices : List Int64) : Option Value :=
  (a.offset? indices).bind fun i => a.data[i]?

/-- Stores a value at a place that there is. -/
def store (a : TypedArray) (i : Nat) (v : Value) : TypedArray :=
  { a with data := a.data.setIfInBounds i (a.kind.convert v) }

/-- Stores a value at the indices; outside of the array nothing is stored. -/
def set (a : TypedArray) (indices : List Int64) (v : Value) : TypedArray :=
  match a.offset? indices with
  | some i => a.store i v
  | none => a

/-- The array with `n` elements at least, new ones being zero.  One that is a single row gets a longer row. -/
def extend (a : TypedArray) (n : Nat) : TypedArray :=
  if n ≤ a.data.size then a
  else
    let data := a.data ++ Array.replicate (n - a.data.size) a.kind.zero
    if a.rows ≤ 1 then ⟨1, data.size, a.kind, data⟩ else { a with data }

/-- Stores a value at a place, for which the array grows up to the greatest length. -/
def put (a : TypedArray) (i : Nat) (v : Value) : TypedArray :=
  if maxArrayLength ≤ i then a else (a.extend (i + 1)).store i v

/-- Sets every element to zero. -/
def reset (a : TypedArray) : TypedArray := { a with data := Array.replicate a.data.size a.kind.zero }

/-- The value as an integer by way of a float. -/
def roughInt (v : Value) : Int64 := Number.wordOf v.toFloat

/-- The elements as integers. -/
def ints (a : TypedArray) : List Int64 := a.data.toList.map roughInt

/-- Parts of `n` elements, the last one perhaps shorter; `fuel` is at least the number of elements. -/
def chunks (n : Nat) : (fuel : Nat) → List Int64 → List (List Int64)
  | 0, _ => []
  | _ + 1, [] => []
  | fuel + 1, xs => xs.take n :: chunks n fuel (xs.drop n)

/-- The rows as integers. -/
def intRows (a : TypedArray) : List (List Int64) := chunks (max 1 a.cols) a.data.size a.ints

theorem offset?_lt {a : TypedArray} {indices : List Int64} {i : Nat} (h : a.offset? indices = some i) :
    i < a.data.size := by
  unfold offset? at h
  obtain ⟨j, _, hj⟩ := Option.bind_eq_some_iff.1 h
  split at hj
  · injection hj with hj
    omega
  · cases hj

theorem get?_set {a : TypedArray} {indices : List Int64} {i : Nat} (h : a.offset? indices = some i) (v : Value) :
    (a.set indices v).get? indices = some (a.kind.convert v) := by
  have hi := offset?_lt h
  have h' : (a.store i v).offset? indices = some i := by
    unfold offset? store at *
    simpa using h
  simp only [set, h, get?, h', Option.bind_some]
  simp [store, hi]

end TypedArray

end RunningLights
