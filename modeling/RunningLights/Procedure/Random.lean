import RunningLights.Expr.Value

/-!
# Random numbers

A linear congruential generator.  Every number moves it on by one step, so a seed fixes the whole sequence.
-/

namespace RunningLights.Procedure

/-- The number of states of the generator. -/
def randomModulus : Nat := 233280

/-- A state of the generator. -/
structure Generator where
  seed : Nat
  deriving Repr, DecidableEq, Inhabited

namespace Generator

def ofSeed (seed : Nat) : Generator := ⟨seed % randomModulus⟩

/-- The next state. -/
def next (g : Generator) : Generator := ⟨(g.seed * 9301 + 49297) % randomModulus⟩

/-- The number that the state stands for among those from zero up to but not including `max`; zero if there are
none. -/
def pick (g : Generator) (max : Int64) : Int64 :=
  if max.toInt ≤ 0 then 0 else Number.wordOf (Float.ofNat g.seed / 233280.0 * Number.floatOf max).floor

/-- A number from zero up to but not including `max`, and the next state. -/
def below (g : Generator) (max : Int64) : Int64 × Generator := (g.next.pick max, g.next)

/-- A number from `min` up to but not including `max`, and the next state.  A range that is too wide moves nothing
on. -/
def between (g : Generator) (min max : Int64) : Except EvalError Int64 × Generator :=
  match Number.fit? (max.toInt - min.toInt) with
  | none => (.error .overflow, g)
  | some span =>
    let (n, g) := g.below span
    match Number.fit? (min.toInt + n.toInt) with
    | none => (.error .overflow, g)
    | some n => (.ok n, g)

end Generator

end RunningLights.Procedure
