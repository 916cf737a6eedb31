import RunningLights.Expr.Eval
import RunningLights.Expr.Parser
import RunningLights.Frame.Basic
import RunningLights.Pattern.Template

/-!
# Compiled patterns

A pattern text is compiled once, under a grammar with two names and nothing but operators, and then evaluated for
every channel.  A channel whose evaluation fails is off, and so are all channels of a text that does not compile.

* `Compiled.size_mask`, `Evaluator.size_evaluate` — a mask has one entry for every channel.
-/

namespace RunningLights

/-- The name of the number of the channel. -/
def indexName : String := "i"

/-- The name of the number of channels. -/
def totalName : String := "totalChannels"

/-- A pattern that passed the grammar. -/
structure Compiled where
  /-- The text with its parameters written in. -/
  source : String
  tree : Expr
  deriving Inhabited

namespace Compiled

/-- Writes the parameters into the text and parses it. -/
def compile (text : String) (ps : Parameters) : Except CompileError Compiled :=
  match Template.substitute text ps with
  | .error e => .error e
  | .ok source =>
    match Expr.parse (.restricted [indexName, totalName]) source with
    | .error e => .error (.parse e)
    | .ok tree => .ok ⟨source, tree⟩

/-- What the two names mean on channel `i` of `total`. -/
def names (i total : Nat) (name : String) : Option Value :=
  if name = indexName then some (.int (Int64.ofNat i))
  else if name = totalName then some (.int (Int64.ofNat total))
  else none

/-- The state of channel `i` of `total`. -/
def evaluateAt (c : Compiled) (i total : Nat) : Except EvalError Bool := do
  let v ← c.tree.eval (Environment.ofNames (names i total)) .real
  return v.truthy

/-- The states of all channels, off where the evaluation fails. -/
def mask (c : Compiled) (total : Nat) : Channels :=
  Array.ofFn fun i : Fin total => (c.evaluateAt i total).toOption.getD false

theorem size_mask (c : Compiled) (total : Nat) : (c.mask total).size = total := Array.size_ofFn

end Compiled

/-- Computes the channels of pattern texts for one number of channels, with the parameters that were set last. -/
structure Evaluator where
  total : Nat
  parameters : Parameters
  deriving Inhabited

namespace Evaluator

/-- An evaluator without parameters. -/
def ofTotal (total : Nat) : Evaluator := ⟨total, .empty⟩

/-- Replaces all parameters. -/
def setParameters (e : Evaluator) (ps : Parameters) : Evaluator := { e with parameters := ps }

/-- The channels that a pattern text lights; none if it does not compile. -/
def evaluate (e : Evaluator) (text : String) : Channels :=
  match Compiled.compile text e.parameters with
  | .ok c => c.mask e.total
  | .error _ => .blank e.total

end Evaluator

/-- The channels that a pattern text lights with some parameters. -/
def maskOf (text : String) (total : Nat) (ps : Parameters) : Channels :=
  ((Evaluator.ofTotal total).setParameters ps).evaluate text

theorem Evaluator.size_evaluate (e : Evaluator) (text : String) : (e.evaluate text).size = e.total := by
  unfold evaluate
  split
  · exact Compiled.size_mask _ _
  · exact Channels.size_blank _

theorem size_maskOf (text : String) (total : Nat) (ps : Parameters) : (maskOf text total ps).size = total :=
  Evaluator.size_evaluate _ text

/-- Of an evaluator only its number of channels outlives a change of the parameters. -/
theorem Evaluator.evaluate_setParameters (e : Evaluator) (ps : Parameters) (text : String) :
    (e.setParameters ps).evaluate text = maskOf text e.total ps := rfl

end RunningLights
