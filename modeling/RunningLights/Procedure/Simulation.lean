import RunningLights.Procedure.Exec
import RunningLights.Procedure.Reader

/-!
# Simulations

A simulation runs a program for a number of channels and reports its frames.  A program that records nothing shows one
frame with every channel off.  A run fails only when it computes what is no word.
-/

namespace RunningLights

open Procedure

/-- The bounds of one run. -/
structure RunLimits where
  /-- The work that is allowed for every command of the program. -/
  workFactor : Nat
  /-- The frames that are kept. -/
  frameCap : Nat
  /-- The seed of the random numbers. -/
  seed : Nat
  deriving Repr, DecidableEq, Inhabited

/-- The bounds of a run for which none were chosen. -/
def RunLimits.standard : RunLimits := ⟨10, maxFrames, 12345⟩

/-- What comes out of a run. -/
structure SimulationReport where
  frames : List Frame
  /-- The frame cap refused a frame. -/
  truncated : Bool
  /-- The work limit ended the run. -/
  limitHit : Bool
  /-- The work that was done. -/
  executed : Nat
  deriving Repr, Inhabited

namespace Simulation

/-- The work that a program of so many commands may do, which 64 bits have to hold. -/
def workLimit (limits : RunLimits) (commands : Nat) : Nat :=
  min (Number.wordBound - 1) (limits.workFactor * commands)

/-- The state of the machine after a run. -/
def finalMachine (total : Nat) (baseDelay : Duration) (limits : RunLimits) (commands : List Command) : Machine :=
  let start := Machine.start total baseDelay limits.frameCap (workLimit limits commands.length) limits.seed
  (runProgram (.ofCommands commands) start).2

/-- The frame of a program that records nothing. -/
def emptyFrame (total : Nat) (baseDelay : Duration) : Frame :=
  { Frame.blank "proc-frame-1" total baseDelay with label := some "Empty Pattern" }

/-- The frames of a finished run, of which there is one at least. -/
def shownFrames (total : Nat) (baseDelay : Duration) (frames : Array Frame) : List Frame :=
  if frames.isEmpty then [emptyFrame total baseDelay] else frames.toList

/-- The report of a list of commands, whose run does not fail. -/
def ofCommands (total : Nat) (baseDelay : Duration) (limits : RunLimits) (commands : List Command) :
    SimulationReport :=
  let m := finalMachine total baseDelay limits commands
  ⟨shownFrames total baseDelay m.recorder.frames, m.recorder.truncated, m.limitHit, min m.work m.limit⟩

/-- The report of a program text, whose run does not fail. -/
def ofSource (total : Nat) (baseDelay : Duration) (limits : RunLimits) (source : String) : SimulationReport :=
  ofCommands total baseDelay limits (Command.ofSource source)

/-- Runs a list of commands.  A run that fails has no report. -/
def run (total : Nat) (baseDelay : Duration) (limits : RunLimits) (commands : List Command) :
    Option SimulationReport :=
  if (finalMachine total baseDelay limits commands).failed.isNone then
    some (ofCommands total baseDelay limits commands)
  else none

/-- Runs a program text. -/
def runSource (total : Nat) (baseDelay : Duration) (limits : RunLimits) (source : String) : Option SimulationReport :=
  run total baseDelay limits (Command.ofSource source)

end Simulation

end RunningLights
