import RunningLights.Number.Binary
import RunningLights.Script.Failure
import RunningLights.Script.Tree

/-!
# The operators of scripts

Integers are computed with exactly, and a result that leaves their range is a failure.  An integer that meets a float
becomes one.  Values of different types are never equal, and neither is less than the other.
-/

namespace RunningLights.Script

open Number

/-- The longest text. -/
def maxText : Nat := 10000

/-- The largest array. -/
def maxItems : Nat := 65536

namespace Operator

/-- The failure of an operator that does not take such values. -/
def unknown (op : Operator) (l r : Datum) : Failure := .unknownFunction op.mark [l.typeName, r.typeName]

/-- The result of an operation on integers, unless it leaves their range. -/
def fitted (op : Operator) (what : String) (a b : Int64) (n : Int) : Except Failure Datum :=
  match fit? n with
  | some n => .ok (.int n)
  | none => .error (.arithmetic s!"{what} overflow: {a.toInt} {op.mark} {b.toInt}")

/-- The text, unless it is too long. -/
def limited (s : String) : Except Failure Datum :=
  if maxText < s.utf8ByteSize then .error .textSize else .ok (.text s)

/-- An operation on integers. -/
def onInts (op : Operator) (a b : Int64) : Except Failure Datum :=
  match op with
  | add => op.fitted "Addition" a b (a.toInt + b.toInt)
  | sub => op.fitted "Subtraction" a b (a.toInt - b.toInt)
  | mul => op.fitted "Multiplication" a b (a.toInt * b.toInt)
  | div =>
    if b = 0 then .error (.arithmetic s!"Division by zero: {a.toInt} / {b.toInt}")
    else op.fitted "Division" a b (a.toInt.tdiv b.toInt)
  | rem =>
    if b = 0 then .error (.arithmetic s!"Modulo division by zero: {a.toInt} % {b.toInt}")
    else if a.toInt = minInt ∧ b.toInt = -1 then .error (.arithmetic s!"Modulo division overflow: {a.toInt} % {b.toInt}")
    else .ok (.int (Int64.ofInt (a.toInt.tmod b.toInt)))
  | lt => .ok (.bool (a < b))
  | gt => .ok (.bool (b < a))
  | le => .ok (.bool (a ≤ b))
  | ge => .ok (.bool (b ≤ a))
  | eq => .ok (.bool (a == b))
  | ne => .ok (.bool (a != b))
  | upTo => .ok (.span (.upTo a.toInt b.toInt))
  | through => .ok (.span (.through a.toInt b.toInt))

/-- An operation on floats. -/
def onFloats (op : Operator) (a b : Float) : Except Failure Datum :=
  match op with
  | add => .ok (.float (a + b))
  | sub => .ok (.float (a - b))
  | mul => .ok (.float (a * b))
  | div => .ok (.float (a / b))
  | rem => .ok (.float (remainder a b))
  | lt => .ok (.bool (a < b))
  | gt => .ok (.bool (b < a))
  | le => .ok (.bool (a ≤ b))
  | ge => .ok (.bool (b ≤ a))
  | eq => .ok (.bool (a == b))
  | ne => .ok (.bool (a != b))
  | upTo | through => .error (op.unknown (.float a) (.float b))

/-- An operation on texts. -/
def onTexts (op : Operator) (a b : String) : Except Failure Datum :=
  match op with
  | add => limited (a ++ b)
  | lt => .ok (.bool (a < b))
  | gt => .ok (.bool (b < a))
  | le => .ok (.bool (!(b < a)))
  | ge => .ok (.bool (!(a < b)))
  | eq => .ok (.bool (a == b))
  | ne => .ok (.bool (a != b))
  | _ => .error (op.unknown (.text a) (.text b))

/-- An operation on truth values. -/
def onBools (op : Operator) (a b : Bool) : Except Failure Datum :=
  match op with
  | lt => .ok (.bool (!a && b))
  | gt => .ok (.bool (a && !b))
  | le => .ok (.bool (!a || b))
  | ge => .ok (.bool (a || !b))
  | eq => .ok (.bool (a == b))
  | ne => .ok (.bool (a != b))
  | _ => .error (op.unknown (.bool a) (.bool b))

/-- Two arrays, one behind the other. -/
def joined (as bs : Array Datum) : Except Failure Datum :=
  if maxItems < as.size + bs.size then .error .arraySize else .ok (.array (as ++ bs))

/-- An operation on values of the same type without an order. -/
def onOthers (op : Operator) (l r : Datum) : Except Failure Datum :=
  match op, l, r with
  | eq, l, r => .ok (.bool (l.same r))
  | ne, l, r => .ok (.bool (!l.same r))
  | add, .array as, .array bs => joined as bs
  | op, l, r =>
    match l, r with
    | .unit, .unit => if op matches lt | gt | le | ge then .ok (.bool false) else .error (op.unknown l r)
    | _, _ => .error (op.unknown l r)

/-- A comparison of values of different types. -/
def onMixed (op : Operator) (l r : Datum) : Except Failure Datum :=
  match op with
  | ne => .ok (.bool true)
  | eq | lt | gt | le | ge => .ok (.bool false)
  | _ => .error (op.unknown l r)

/-- The value of an operation. -/
def apply (op : Operator) (l r : Datum) : Except Failure Datum :=
  match l, r with
  | .int a, .int b => op.onInts a b
  | .float a, .float b => op.onFloats a b
  | .int a, .float b => op.onFloats (Number.floatOf a) b
  | .float a, .int b => op.onFloats a (Number.floatOf b)
  | .text a, .text b => op.onTexts a b
  | .bool a, .bool b => op.onBools a b
  | l, r =>
    match op, l, r with
    | add, .text a, r => limited (a ++ r.write)
    | add, l, .text b => limited (l.write ++ b)
    | op, l, r => if l.typeName == r.typeName then op.onOthers l r else op.onMixed l r

/-- The value that an assignment with an operator stores.  Arrays take up what is added to them. -/
def update (op : Operator) (old new : Datum) : Except Failure Datum :=
  match op, old, new with
  | add, .array as, .array bs => joined as bs
  | add, .array as, v => joined as #[v]
  | op, old, new => op.apply old new

end Operator

/-- The value of a term with a sign. -/
def Sign.apply (s : Sign) (v : Datum) : Except Failure Datum :=
  match s, v with
  | .not, .bool b => .ok (.bool (!b))
  | .neg, .int n =>
    match fit? (-n.toInt) with
    | some m => .ok (.int m)
    | none => .error (.arithmetic s!"Negation overflow: -{n.toInt}")
  | .neg, .float x => .ok (.float (-x))
  | .pos, .int n => .ok (.int n)
  | .pos, .float x => .ok (.float x)
  | .not, v => .error (.unknownFunction "!" [v.typeName])
  | .neg, v => .error (.unknownFunction "-" [v.typeName])
  | .pos, v => .error (.unknownFunction "+" [v.typeName])

end RunningLights.Script
