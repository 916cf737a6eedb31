import RunningLights.Settings.Basic
import RunningLights.Toml.Parser
import RunningLights.Toml.Writer

/-!
# Settings as documents

Settings are a document of four tables.  What a document does not say keeps its default, and what is not known is
passed over.  A table may be given as a list of its values as well.

* `Settings.ofText`, `Settings.text` — the settings of a document, and the document of settings;
* `Settings.load` — settings that were read and found fit for a run;
* `Settings.commentedText` — the document of the default settings, with comments.
-/

namespace RunningLights

namespace Toml

/-! ### Values of a kind -/

/-- A number of 64 bits without a sign. -/
def nat? : Toml → Option Nat
  | .scalar (.int n) => if 0 ≤ n.toInt then some n.toInt.toNat else none
  | _ => none

def text? : Toml → Option String
  | .scalar (.text s) => some s
  | _ => none

def bool? : Toml → Option Bool
  | .scalar (.bool b) => some b
  | _ => none

/-- A float, or an integer in its place. -/
def float? : Toml → Option Float
  | .scalar (.float x) => some x
  | .scalar (.int n) => some (Float.ofInt n.toInt)
  | _ => none

/-- The values under names.  A list has them in the order of the names, and a moment has none. -/
def parts? (names : List String) : Toml → Option (List (Option Toml))
  | .scalar _ => none
  | .moment => some (names.map fun _ => none)
  | .table _ entries => some (names.map fun name => List.lookup name entries)
  | .array items => some (names.zipIdx.map fun (_, i) => items[i]?)
  | .tables items => some (names.zipIdx.map fun (_, i) => items[i]?.map (.table .header))

/-- The value of a part, or its default if it is not there. -/
def orElse {α : Type} (read : Toml → Option α) (default : α) : Option Toml → Option α
  | some v => read v
  | none => some default

end Toml

namespace Settings

/-! ### Reading -/

open Toml (orElse parts? nat? text? bool? float?)

/-- The settings of the strip. -/
def deviceOf? (v : Toml) : Option DeviceSettings := do
  let d : DeviceSettings := {}
  match ← parts? ["total_channels", "base_delay"] v with
  | [channels, baseDelay] => return ⟨← orElse nat? d.channels channels, ← orElse text? d.baseDelay baseDelay⟩
  | _ => none

/-- The bounds of procedural programs. -/
def procedureOf? (v : Toml) : Option RunLimits := do
  let d := RunLimits.standard
  match ← parts? ["instruction_factor", "max_frames", "random_seed"] v with
  | [workFactor, frameCap, seed] =>
    return ⟨← orElse nat? d.workFactor workFactor, ← orElse nat? d.frameCap frameCap, ← orElse nat? d.seed seed⟩
  | _ => none

/-- The bounds of script runs. -/
def scriptOf? (v : Toml) : Option ScriptSettings := do
  let d : ScriptSettings := {}
  match ← parts? ["max_wall_clock", "max_frames", "max_call_levels", "fast_generation"] v with
  | [wallClock, frameCap, callLevels, fast] =>
    return ⟨← orElse text? d.wallClock wallClock, ← orElse nat? d.frameCap frameCap,
      ← orElse nat? d.callLevels callLevels, ← orElse bool? d.fast fast⟩
  | _ => none

/-- How frames are played. -/
def playerOf? (v : Toml) : Option PlayerSettings := do
  let d : PlayerSettings := {}
  match ← parts? ["speed", "looping", "fallback_delay"] v with
  | [speed, looping, fallback] =>
    return ⟨← orElse float? d.speed speed, ← orElse bool? d.looping looping, ← orElse text? d.fallback fallback⟩
  | _ => none

/-- The settings of a document's entries. -/
def ofEntries? (entries : Toml.Entries) : Option Settings := do
  let part (name : String) : Option Toml := List.lookup name entries
  return {
    device := ← orElse deviceOf? {} (part "device")
    procedure := ← orElse procedureOf? .standard (part "interpreter")
    script := ← orElse scriptOf? {} (part "script")
    player := ← orElse playerOf? {} (part "playback") }

/-- The settings of a document. -/
def ofText (text : String) : Except SettingsError Settings :=
  match (Toml.parse? text).bind ofEntries? with
  | some s => .ok s
  | none => .error .malformed

/-- The settings of a file, if they can drive a run. -/
def load (file : Except FileError String) : Except SettingsError Settings := do
  let text ← file.mapError .file
  let s ← ofText text
  s.check
  return s

/-! ### Writing -/

/-- The scalar of a number, if it has one. -/
def natScalar? (n : Nat) : Option Toml.Scalar := (Number.fit? n).map .int

/-- The tables of a document, unless a number is too great. -/
def sections? (s : Settings) : Option (List Toml.Section) := do
  return [
    ⟨"device", [("total_channels", ← natScalar? s.device.channels), ("base_delay", .text s.device.baseDelay)]⟩,
    ⟨"interpreter", [("instruction_factor", ← natScalar? s.procedure.workFactor),
      ("max_frames", ← natScalar? s.procedure.frameCap), ("random_seed", ← natScalar? s.procedure.seed)]⟩,
    ⟨"script", [("max_wall_clock", .text s.script.wallClock), ("max_frames", ← natScalar? s.script.frameCap),
      ("max_call_levels", ← natScalar? s.script.callLevels), ("fast_generation", .bool s.script.fast)]⟩,
    ⟨"playback", [("speed", .float s.player.speed), ("looping", .bool s.player.looping),
      ("fallback_delay", .text s.player.fallback)]⟩]

/-- The document of settings. -/
def text (s : Settings) : Except SettingsError String :=
  match s.sections? with
  | some sections => .ok (Toml.document sections)
  | none => .error .unwritable

/-- The document of the default settings, with comments. -/
def commentedText : String := "# chaselight configuration file

[device]
# Number of channels on the strip
total_channels = 24

# Hold time used by sleep() without an argument and by helper steps
base_delay = \"30ms\"

[interpreter]
# Executed statements allowed per parsed command
instruction_factor = 10

# Frames kept before a run is cut off
max_frames = 1000

# Seed of the deterministic random() generator
random_seed = 12345

[script]
# Wall-clock ceiling for one script run
max_wall_clock = \"30s\"

# Frame ceiling for one script run
max_frames = 1000

# Maximum nesting of script function calls
max_call_levels = 64

# Skip real delays in pause_for() when only frames are needed
fast_generation = true

[playback]
# Speed multiplier (2.0 plays twice as fast)
speed = 1.0

# Restart from the first frame at the end
looping = false

# Hold time for frames with a zero delay
fallback_delay = \"100ms\"
"

end Settings

end RunningLights
