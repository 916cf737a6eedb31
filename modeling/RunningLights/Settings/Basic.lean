import RunningLights.FileTree
import RunningLights.Frame.DurationText
import RunningLights.Number.Layout
import RunningLights.Playback.Cursor
import RunningLights.Procedure.Simulation
import RunningLights.Script.Session

/-!
# Settings

The settings of the strip, of both kinds of programs, and of playback.  Durations are kept as the user has written
them, so that settings are saved the way they were given; they are read where they are used.

* `Settings.check` — the first reason why settings cannot drive a run;
* `Settings.scriptLimits`, `Settings.playbackSettings` — what runs and playback need of them.
-/

namespace RunningLights

/-- The strip. -/
structure DeviceSettings where
  channels : Nat := 24
  baseDelay : String := "30ms"
  deriving BEq, Inhabited

/-- The bounds of script runs. -/
structure ScriptSettings where
  wallClock : String := "30s"
  frameCap : Nat := maxFrames
  callLevels : Nat := 64
  fast : Bool := true
  deriving BEq, Inhabited

/-- How frames are played. -/
structure PlayerSettings where
  speed : Float := 1.0
  looping : Bool := false
  fallback : String := "100ms"
  deriving BEq, Inhabited

/-- All settings. -/
structure Settings where
  device : DeviceSettings := {}
  /-- The bounds of procedural programs. -/
  procedure : RunLimits := .standard
  script : ScriptSettings := {}
  player : PlayerSettings := {}
  deriving BEq, Inhabited

/-- What is wrong with settings, or with the file that they are in. -/
inductive SettingsError where
  | file (e : FileError)
  /-- The text is no document, or it has a value of the wrong kind. -/
  | malformed
  /-- A number is too great for a document. -/
  | unwritable
  | duration (text : String) (reason : DurationError)
  /-- Procedural programs are not allowed to do anything. -/
  | noWork
  | unplayable (speed : Float)
  deriving Inhabited

namespace SettingsError

/-- The wording of an error. -/
def message : SettingsError → String
  | file e => s!"IO error: {e.message}"
  | malformed => "TOML parse error: the document is malformed"
  | unwritable => "TOML serialization error: out-of-range value for a 64-bit integer"
  | duration text reason => s!"Invalid duration '{text}': {reason.message}"
  | noWork => "Configuration error: interpreter.instruction_factor must be positive"
  | unplayable speed =>
    s!"Configuration error: playback.speed must be positive, got {Number.plainLayout.write speed}"

/-- The error behind an error, in its own words. -/
def cause? : SettingsError → Option String
  | file e => some e.message
  | duration _ reason => some reason.message
  | _ => none

end SettingsError

namespace Settings

/-- The duration of a text, without the blanks around it. -/
def durationOf (text : String) : Except SettingsError Duration :=
  match Duration.read (Text.trim text.toList) with
  | .ok d => .ok d
  | .error e => .error (.duration text e)

/-- The default delay of frames. -/
def baseDelay (s : Settings) : Except SettingsError Duration := durationOf s.device.baseDelay

/-- The bounds of script runs. -/
def scriptLimits (s : Settings) : Except SettingsError Script.ScriptLimits := do
  let wallClock ← durationOf s.script.wallClock
  return { Script.ScriptLimits.standard with
    wallClock, frameCap := s.script.frameCap, callLevels := s.script.callLevels, fast := s.script.fast }

/-- How frames are played. -/
def playbackSettings (s : Settings) : Except SettingsError PlaybackSettings := do
  return ⟨s.player.speed, s.player.looping, ← durationOf s.player.fallback⟩

/-- Refuses settings that cannot drive a run. -/
def check (s : Settings) : Except SettingsError Unit := do
  let _ ← s.baseDelay
  let _ ← durationOf s.script.wallClock
  let _ ← durationOf s.player.fallback
  if s.procedure.workFactor = 0 then throw .noWork
  if !(s.player.speed.isFinite && 0 < s.player.speed) then throw (.unplayable s.player.speed)

end Settings

end RunningLights
