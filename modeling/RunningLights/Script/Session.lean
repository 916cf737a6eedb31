import RunningLights.Frame.Basic
import RunningLights.Frame.DurationText

/-!
# The session of a script

A running script sees the strip through a `Session`: it changes the channels and pauses, and every pause records a
frame.  What a script can ask for is a `Request`; a request that a bound forbids aborts the run.

Time is reckoned, not measured: every operation of a script takes `operationTime`, and in real time a pause takes as
long as it says.

* `Session.pause` — one frame, unless the run was stopped or the frame cap is reached;
* `Session.wave`, `Session.scatter` — all channels in a fixed or in a random order, with a pause after each step;
* `Session.perform` — a request.
-/

namespace RunningLights.Script

/-- The bounds and the mode of script runs. -/
structure ScriptLimits where
  wallClock : Duration
  frameCap : Nat
  callLevels : Nat
  exprDepth : Nat
  /-- Pauses do not wait. -/
  fast : Bool
  deriving Repr, DecidableEq, Inhabited

/-- The bounds of runs for which none were chosen. -/
def ScriptLimits.standard : ScriptLimits := ⟨.ofSeconds 30, maxFrames, 64, 64, true⟩

/-- Why a run was aborted. -/
inductive Abort where
  | stopped
  | frameLimit (cap : Nat)
  | timeout (limit : Duration)
  /-- The source of random channels has ended. -/
  | noCandidate
  deriving Repr, DecidableEq, Inhabited

/-- The wording of an abort. -/
def Abort.reason : Abort → String
  | stopped => "Execution stopped"
  | frameLimit cap => s!"Maximum frame limit ({cap}) exceeded"
  | timeout limit => s!"Execution timeout: pattern took too long to execute ({limit.text} limit)"
  | noCandidate => "No random channel is left"

/-- The state of the strip during one run.  Only in real time do pauses wait. -/
structure Session where
  channels : Channels
  recorder : Recorder
  pauses : Nat
  frameCap : Nat
  baseDelay : Duration
  realtime : Bool
  wallClock : Duration
  elapsed : Duration
  operations : Nat
  stopRequested : Bool
  deriving Inhabited

/-- A computation on the session that may be aborted.  What it did before stays done. -/
abbrev Play := ExceptT Abort (StateM Session)

/-- What a script can ask of the strip. -/
inductive Request where
  | set (index : Int64) (on : Bool)
  | fill (on : Bool)
  | pause (ms : Int64)
  | wave (on : Bool) (reverse : Bool)
  /-- All channels in random order, drawn from candidates. -/
  | scatter (on : Bool) (candidates : List Nat)
  deriving Repr, DecidableEq

/-- The time that one operation takes. -/
def operationTime : Duration := ⟨100⟩

/-- The operations from one check of the clock to the next. -/
def checkInterval : Nat := 256

namespace Session

/-- The session at the start of a run. -/
def start (total : Nat) (baseDelay : Duration) (limits : ScriptLimits) (fast stopRequested : Bool) : Session where
  channels := .blank total
  recorder := .empty "script" limits.frameCap
  pauses := 0
  frameCap := limits.frameCap
  baseDelay := baseDelay
  realtime := !fast
  wallClock := limits.wallClock
  elapsed := ⟨0⟩
  operations := 0
  stopRequested := stopRequested

/-! ### Time -/

/-- Fails once the run has taken too long. -/
def checkClock : Play Unit := do
  let s ← get
  if s.wallClock.nanos < s.elapsed.nanos then throw (.timeout s.wallClock) else pure ()

/-- Carries out one operation of the script.  Now and then it is checked whether the run may go on. -/
def operation : Play Unit := do
  modify fun s => { s with operations := s.operations + 1, elapsed := s.elapsed + operationTime }
  let s ← get
  if s.operations % checkInterval = 0 then
    if s.stopRequested then throw .stopped else checkClock
  else pure ()

/-- A number above that of the operations that are left before the clock ends the run. -/
def operationsLeft (s : Session) : Nat :=
  (s.wallClock.nanos - s.elapsed.nanos) / operationTime.nanos + 2 * checkInterval

/-! ### Channels and pauses -/

/-- Sets one channel; numbers beyond either end of the strip set none. -/
def setChannel (index : Int64) (on : Bool) (s : Session) : Session :=
  if 0 ≤ index.toInt then { s with channels := s.channels.set index.toInt.toNat on } else s

/-- The base delay in milliseconds. -/
def baseMillis (s : Session) : Int64 := Int64.ofNat s.baseDelay.wholeMillis

/-- Waits in real time.  While time passes it is checked whether the run may go on.  A stop is asked for before or after
a request, never during one, so a pause that was admitted ends early only for the clock. -/
def wait (delay : Duration) : Play Unit := do
  let s ← get
  if s.realtime ∧ delay.nanos ≠ 0 then
    set { s with elapsed := s.elapsed + delay + operationTime }
    if s.stopRequested then throw .stopped else checkClock
  else pure ()

/-- Records the channels as they are, held for some milliseconds, none if there are less. -/
def pause (ms : Int64) : Play Unit := do
  let s ← get
  let delay := Duration.ofMillis ms.toInt.toNat
  if s.stopRequested then throw .stopped
  else if s.frameCap ≤ s.pauses then throw (.frameLimit s.frameCap)
  else
    set { s with pauses := s.pauses + 1, recorder := s.recorder.capture s.channels delay none }
    wait delay

/-! ### Sequences -/

/-- The two channels of step `i` of a wave over `total` channels.  The steps of the first half of the wave run over
the first half of the strip, from its ends to its middle, and the others over the second half. -/
def wavePair (total i : Int) : Int × Int :=
  let half := total.tdiv 2
  if i < half.tdiv 2 then (i, half - (i + 1)) else (i + half, total - i - 1)

/-- The steps of a wave. -/
def waveSteps (total : Nat) (reverse : Bool) : List Nat :=
  if reverse then (List.range (total / 2)).reverse else List.range (total / 2)

/-- One step of a wave. -/
def waveStep (total : Nat) (on : Bool) (i : Nat) : Play Unit := do
  let (a, b) := wavePair total i
  modify fun s => (s.setChannel (Int64.ofInt a) on).setChannel (Int64.ofInt b) on
  pause (← get).baseMillis

/-- The steps of a wave, one after another. -/
def waveThrough (total : Nat) (on : Bool) : List Nat → Play Unit
  | [] => pure ()
  | i :: rest => do
    waveStep total on i
    waveThrough total on rest

/-- Sets all channels in pairs, from the ends of each half of the strip to its middle. -/
def wave (on reverse : Bool) : Play Unit := do
  let total := (← get).channels.size
  waveThrough total on (waveSteps total reverse)

/-- The first candidate whose channel is not in the state yet, and the candidates behind it. -/
def firstOpen (on : Bool) (plan : Channels) : List Nat → Option (Nat × List Nat)
  | [] => none
  | c :: rest => if c < plan.size ∧ plan.get c ≠ on then some (c, rest) else firstOpen on plan rest

/-- Sets so many more channels of the plan and shows the plan after each. -/
def scatterOn (on : Bool) : (left : Nat) → (plan : Channels) → (candidates : List Nat) → Play Unit
  | 0, _, _ => pure ()
  | left + 1, plan, candidates =>
    match firstOpen on plan candidates with
    | none => throw .noCandidate
    | some (c, rest) => do
      let plan := plan.set c on
      modify fun s => { s with channels := plan }
      pause (← get).baseMillis
      scatterOn on left plan rest

/-- Sets all channels one at a time in random order, starting with all in the other state. -/
def scatter (on : Bool) (candidates : List Nat) : Play Unit := do
  let total := (← get).channels.size
  scatterOn on total (Array.replicate total (!on)) candidates

/-! ### Requests -/

/-- Carries out a request. -/
def perform : Request → Play Unit
  | .set index on => modify (setChannel index on)
  | .fill on => modify fun s => { s with channels := s.channels.fill on }
  | .pause ms => pause ms
  | .wave on reverse => wave on reverse
  | .scatter on candidates => scatter on candidates

/-- Carries out requests up to the first that is refused. -/
def performAll : List Request → Play Unit
  | [] => pure ()
  | r :: rest => do
    perform r
    performAll rest

/-! ### The end of a run -/

/-- The label of the frame of a script that never pauses. -/
def finalLabel : String := "Final State"

/-- Records the channels if nothing was recorded. -/
def recordFinal (s : Session) : Session :=
  if s.recorder.frames.isEmpty then
    { s with recorder := s.recorder.capture s.channels s.baseDelay (some finalLabel) }
  else s

/-- As many pauses were admitted as there may be. -/
def exhausted (s : Session) : Bool := s.frameCap ≤ s.pauses

end Session

/-- What is known of a run afterwards. -/
structure RunStats where
  frames : Nat
  warnings : List String
  deriving Repr, DecidableEq, Inhabited

/-- The number of frames beyond which a run is warned about. -/
def manyFrames : Nat := 500

/-- The time beyond which a run is warned about. -/
def longTime : Duration := .ofSeconds 5

/-- The statistics of a run that has ended. -/
def Session.stats (s : Session) : RunStats where
  frames := s.pauses
  warnings :=
    (if manyFrames < s.pauses then ["High frame count detected. Consider optimizing your pattern."] else []) ++
    (if longTime.nanos < s.elapsed.nanos then ["Slow execution detected. Pattern may be too complex."] else []) ++
    (if s.exhausted then ["Maximum frame limit reached. Pattern was truncated."] else [])

end RunningLights.Script
