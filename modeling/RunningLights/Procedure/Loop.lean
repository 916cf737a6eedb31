import RunningLights.Procedure.Command

/-!
# Counted loops

How often a counted loop runs, and the values that its variable takes.  All results are kept within the 64-bit
range by moving them to its nearest end.
-/

namespace RunningLights.LoopHeader

open Number

/-- The distance from the first value to the bound, which counts if it is included. -/
def span (h : LoopHeader) (start bound : Int64) : Int64 :=
  let distance := match h.direction with
    | .forward => clamp (bound.toInt - start.toInt)
    | .reverse => clamp (start.toInt - bound.toInt)
  clamp (distance.toInt + if h.inclusive then 1 else 0)

/-- The number of passes, for a positive step. -/
def passes (h : LoopHeader) (start bound step : Int64) : Nat :=
  let span := (h.span start bound).toInt
  if span ≤ 0 then 0
  else (span.tdiv step.toInt + if span.tmod step.toInt = 0 then 0 else 1).toNat

/-- The value of the variable in pass `k`, counting from zero.  A loop that goes down to a bound outside of it starts
one below its first value. -/
def valueAt (h : LoopHeader) (start step : Int64) (k : Nat) : Int64 :=
  let offset := clamp (k * step.toInt)
  match h.direction, h.inclusive with
  | .forward, _ => clamp (start.toInt + offset.toInt)
  | .reverse, true => clamp (start.toInt - offset.toInt)
  | .reverse, false => clamp ((clamp (start.toInt - 1)).toInt - offset.toInt)

end RunningLights.LoopHeader
