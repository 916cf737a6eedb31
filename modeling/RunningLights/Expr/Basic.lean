import RunningLights.Expr.Value

/-!
# Expressions

Expression trees, their operators, and what evaluating an operator means.  Integers (and Booleans, which count as
integers) are computed exactly and refused when they leave the 64-bit range; a float result must be finite.
-/

namespace RunningLights

open Number

/-- Operators on one operand. -/
inductive UnaryOp where
  | not
  | neg
  deriving Inhabited, DecidableEq, Repr

/-- Operators on two operands. -/
inductive BinaryOp where
  | add
  | sub
  | mul
  | div
  | rem
  | lt
  | gt
  | le
  | ge
  | eq
  | ne
  | and
  | or
  deriving Inhabited, DecidableEq, Repr

/-- An expression. -/
inductive Expr where
  | literal (v : Value)
  | ident (name : String)
  | unary (op : UnaryOp) (e : Expr)
  | binary (op : BinaryOp) (l r : Expr)
  | index (name : String) (indices : List Expr)
  | call (name : String) (args : List Expr)
  deriving Inhabited

/-- The two readings of division. -/
inductive Arithmetic where
  /-- A quotient of integers that is no integer is a float. -/
  | real
  /-- Integers divide to integers, cut off at the point. -/
  | integer
  deriving Inhabited, DecidableEq, Repr

/-- The name, if the expression is one. -/
def Expr.ident? : Expr → Option String
  | .ident name => some name
  | _ => none

/-! ### Operators on values -/

/-- The integer result, or the error that it does not fit. -/
def exactly (n : Int) : Except EvalError Value :=
  match fit? n with
  | some w => .ok (.int w)
  | none => .error .overflow

/-- The float result, or the error that it is not finite. -/
def finitely (x : Float) : Except EvalError Value :=
  if x.isFinite then .ok (.float x) else .error (.notFinite x)

/-- Applies an operator on one operand. -/
def UnaryOp.apply : UnaryOp → Value → Except EvalError Value
  | .not, v => .ok (.bool (!v.truthy))
  | .neg, v =>
    match v.integral? with
    | some n => exactly (-n.toInt)
    | none => .ok (.float (-v.toFloat))

/-- The outcome of a comparison of integers. -/
def BinaryOp.comparesInts (op : BinaryOp) (a b : Int) : Bool :=
  match op with
  | .eq => a == b
  | .ne => a != b
  | .lt => a < b
  | .gt => b < a
  | .le => a ≤ b
  | _ => b ≤ a

/-- The outcome of a comparison of floats. -/
def BinaryOp.comparesFloats (op : BinaryOp) (a b : Float) : Bool :=
  match op with
  | .eq => a == b
  | .ne => a != b
  | .lt => a < b
  | .gt => b < a
  | .le => a ≤ b
  | _ => b ≤ a

/-- The outcome of a comparison of values: exact between integers, by floats otherwise. -/
def BinaryOp.compares (op : BinaryOp) (l r : Value) : Bool :=
  match l.integral?, r.integral? with
  | some a, some b => op.comparesInts a.toInt b.toInt
  | _, _ => op.comparesFloats l.toFloat r.toFloat

/-- Applies an operator to two integers; their quotient follows `arithmetic`.  Comparisons and connectives do not
occur here. -/
def BinaryOp.applyInts (op : BinaryOp) (arithmetic : Arithmetic) (a b : Int64) : Except EvalError Value :=
  match op with
  | .add => exactly (a.toInt + b.toInt)
  | .sub => exactly (a.toInt - b.toInt)
  | .mul => exactly (a.toInt * b.toInt)
  | .div =>
    if b.toInt = 0 then .error .divisionByZero
    else match arithmetic with
      | .integer => exactly (a.toInt.tdiv b.toInt)
      | .real =>
        match fit? (a.toInt.tdiv b.toInt) with
        | some q => if a.toInt.tmod b.toInt = 0 then .ok (.int q) else finitely (floatOf a / floatOf b)
        | none => finitely (floatOf a / floatOf b)
  | _ =>
    if b.toInt = 0 then .error .divisionByZero
    else match fit? (a.toInt.tdiv b.toInt) with
      | some _ => exactly (a.toInt.tmod b.toInt)
      | none => .error .overflow

/-- Applies an operator to two floats.  Comparisons and connectives do not occur here. -/
def BinaryOp.applyFloats (op : BinaryOp) (a b : Float) : Except EvalError Value :=
  match op with
  | .add => finitely (a + b)
  | .sub => finitely (a - b)
  | .mul => finitely (a * b)
  | .div => if b == 0 then .error .divisionByZero else finitely (a / b)
  | _ => if b == 0 then .error .divisionByZero else finitely (remainder a b)

/-- Applies an arithmetic operator: exactly if both operands are integers, in floats otherwise. -/
def BinaryOp.applyArithmetic (op : BinaryOp) (arithmetic : Arithmetic) (l r : Value) : Except EvalError Value :=
  match l.integral?, r.integral? with
  | some a, some b => op.applyInts arithmetic a b
  | _, _ => op.applyFloats l.toFloat r.toFloat

/-- Applies an operator to two values. -/
def BinaryOp.apply (op : BinaryOp) (arithmetic : Arithmetic) (l r : Value) : Except EvalError Value :=
  match op with
  | .and => .ok (.bool (l.truthy && r.truthy))
  | .or => .ok (.bool (l.truthy || r.truthy))
  | .lt | .gt | .le | .ge | .eq | .ne => .ok (.bool (op.compares l r))
  | .add | .sub | .mul | .div | .rem => op.applyArithmetic arithmetic l r

end RunningLights
