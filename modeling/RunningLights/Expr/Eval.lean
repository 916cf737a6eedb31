import RunningLights.Expr.Basic

/-!
# Evaluating expressions

Names, array elements and calls mean what an `Environment` says, in whatever monad it works; the operators, the
order of evaluation and the short circuits of the connectives are the same for all of them.
-/

namespace RunningLights

/-- An argument of a call: its tree, by which an array can be passed, and the computation of its value. -/
structure Argument (m : Type → Type) where
  tree : Expr
  value : m Value

/-- What names, elements and calls mean. -/
structure Environment (m : Type → Type) where
  lookup : String → m Value
  element : String → List Int64 → m Value
  call : String → List (Argument m) → m Value

section

variable {m : Type → Type} [Monad m] [MonadExceptOf EvalError m]

/-- A finished result as a computation. -/
@[inline] def settle {α : Type} : Except EvalError α → m α
  | .ok a => pure a
  | .error e => throwThe EvalError e

mutual

/-- The value of an expression, operands from left to right. -/
@[specialize] def Expr.eval (env : Environment m) (arithmetic : Arithmetic) : Expr → m Value
  | .literal v => pure v
  | .ident name => env.lookup name
  | .unary op e => do
    let v ← e.eval env arithmetic
    settle (op.apply v)
  | .binary .and l r => do
    let v ← l.eval env arithmetic
    if v.truthy then
      let w ← r.eval env arithmetic
      pure (.bool w.truthy)
    else pure (.bool false)
  | .binary .or l r => do
    let v ← l.eval env arithmetic
    if v.truthy then pure (.bool true)
    else
      let w ← r.eval env arithmetic
      pure (.bool w.truthy)
  | .binary op l r => do
    let v ← l.eval env arithmetic
    let w ← r.eval env arithmetic
    settle (op.apply arithmetic v w)
  | .index name indices => do
    let place ← Expr.evalIndices env arithmetic indices
    env.element name place
  | .call name args => env.call name (Expr.arguments env arithmetic args)

/-- The values of indices, each taken as an integer before the next is evaluated. -/
@[specialize] def Expr.evalIndices (env : Environment m) (arithmetic : Arithmetic) : List Expr → m (List Int64)
  | [] => pure []
  | e :: es => do
    let v ← e.eval env arithmetic
    let n ← settle v.asInt
    let ns ← Expr.evalIndices env arithmetic es
    pure (n :: ns)

/-- The arguments of a call, not yet evaluated. -/
@[specialize] def Expr.arguments (env : Environment m) (arithmetic : Arithmetic) : List Expr → List (Argument m)
  | [] => []
  | e :: es => ⟨e, e.eval env arithmetic⟩ :: Expr.arguments env arithmetic es

end

end

/-- An environment of names only: there are no arrays and no functions. -/
def Environment.ofNames (value? : String → Option Value) : Environment (Except EvalError) where
  lookup name := match value? name with
    | some v => .ok v
    | none => .error (.unknownIdentifier name)
  element name _ := .error (.notAnArray name)
  call name _ := .error (.unknownFunction name)

end RunningLights
