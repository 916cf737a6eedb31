import RunningLights.Script.Eval
import RunningLights.Script.Parser
import RunningLights.Script.Policy

/-!
# Script executors

An executor runs one script at a time.  A script that breaks the policy or has a syntax error is rejected before it
runs; a run that is aborted or fails gives no frames.

* `Script.validate` — the violations of a script;
* `Executor.run` — a run: its frames or why there are none, and the executor afterwards.
-/

namespace RunningLights.Script

/-- Why a script gives no frames. -/
inductive ScriptError where
  | alreadyRunning
  | rejected (violations : List Violation)
  | aborted (a : Abort)
  | runtime (f : Failure) (place : Position)
  deriving Inhabited

/-- The wording of an error. -/
def ScriptError.message : ScriptError → String
  | alreadyRunning => "Script execution already in progress"
  | rejected vs => "Code validation failed: " ++ ", ".intercalate (vs.map Violation.text)
  | aborted a => s!"Execution aborted: {a.reason}"
  | runtime f p => s!"Script execution error: {f.message} (line {p.line}, position {p.column})"

/-- The tree of a script that may be run, or why it may not: its violations of the policy, and its first syntax error
unless there is nothing in it. -/
def validate (source : String) : Except (List Violation) ScriptTree :=
  let vs := Policy.violations source
  if source.toList.all Text.isBlank then .error vs
  else match ScriptTree.parse source with
    | .error e => .error (vs ++ [e.violation])
    | .ok tree => if vs.isEmpty then .ok tree else .error vs

/-- The stage at the start of a run. -/
def Stage.start (session : Session) : Stage where
  session := session
  scope := constants session.channels.size session.baseDelay
  generator := .ofSeed 0

/-- The end of a run: why it failed if it did, and the session. -/
def runTree (tree : ScriptTree) (callLevels : Nat) (session : Session) : Except ScriptError Unit × Session :=
  match tree.run callLevels (.start session) with
  | (.ok _, stage) => (.ok (), stage.session)
  | (.error (.abort a), stage) => (.error (.aborted a), stage.session)
  | (.error (.failed f p), stage) => (.error (.runtime f p), stage.session)
  | (.error _, stage) => (.ok (), stage.session)

/-- The frames of a run that has ended.  A run that fails has none, and one that records nothing shows the channels as
it leaves them. -/
def outcome (ending : Except ScriptError Unit × Session) : Except ScriptError (List Frame) × RunStats :=
  match ending with
  | (.ok _, session) =>
    let session := session.recordFinal
    (.ok session.recorder.frames.toList, session.stats)
  | (.error e, session) => (.error e, session.stats)

/-- Runs scripts one at a time. -/
structure Executor where
  limits : ScriptLimits
  /-- A script is running. -/
  running : Bool
  /-- A stop was asked for since the last run began. -/
  stopRequested : Bool
  /-- What is known of the last run that passed validation. -/
  stats : Option RunStats
  deriving Inhabited

namespace Executor

/-- An executor that has run nothing. -/
def ofLimits (limits : ScriptLimits) : Executor := ⟨limits, false, false, none⟩

/-- Asks the current run to stop. -/
def stop (e : Executor) : Executor := { e with stopRequested := true }

/-- What a run gives that has ended so, and the executor afterwards. -/
def finished (e : Executor) (interrupted : Bool) (ending : Except ScriptError Unit × Session) :
    Except ScriptError (List Frame) × Executor :=
  let (result, stats) := outcome ending
  (result, { e with stats := some stats, stopRequested := interrupted })

/-- Runs a script.  A stop that was asked for before is forgotten; if `interrupted`, one is asked for as soon as the
script runs. -/
def run (e : Executor) (fast interrupted : Bool) (source : String) (total : Nat) (baseDelay : Duration) :
    Except ScriptError (List Frame) × Executor :=
  if e.running then (.error .alreadyRunning, e)
  else
    let e := { e with stopRequested := false }
    match validate source with
    | .error vs => (.error (.rejected vs), e)
    | .ok tree =>
      let session := Session.start total baseDelay e.limits fast interrupted
      e.finished interrupted (runTree tree e.limits.callLevels session)

/-- Runs a script without waiting. -/
def generate (e : Executor) := e.run true false

/-- Runs a script in real time. -/
def runRealtime (e : Executor) := e.run false false

/-- Runs a script in the mode of the executor. -/
def execute (e : Executor) := e.run e.limits.fast false

end Executor

end RunningLights.Script
