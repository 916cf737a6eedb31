import RunningLights.CommandLine.Arguments
import RunningLights.CommandLine.Reply
import RunningLights.Script.Executor
import RunningLights.Settings.Document

/-!
# Invocations and their replies

An invocation reads the files it needs, makes frames and shows them.  Reading is a parameter, and the one file that
is ever written is written before the reply, so that replies are values.

* `Invocation.reply` — the reply to an invocation;
* `respond` — the reply to arguments in a tree of files, and the tree afterwards.
-/

namespace RunningLights.CommandLine

/-- What an invocation sees of the world. -/
structure Surroundings where
  /-- The directory of the settings of all programs, if there is one. -/
  configHome : Option String
  read : String → Except FileError String
  /-- What came of writing the file that `Invocation.saves` names. -/
  saved : Except FileError Unit

/-- The path of the settings in the directory of all settings. -/
def settingsPath (configHome : String) : String := configHome ++ "/chaselight/config.toml"

/-- The first line of `--version`. -/
def versionText : String := "chaselight 0.1.0\n"

/-- The text of `--help`. -/
def helpText : String :=
  "Preview LED chase patterns before flashing them

Usage: chaselight [OPTIONS] <COMMAND>

Commands:
  run <FILE>          Run a pattern source file
  check <FILE>        Validate a script without running it
  expressions         List the stock expression library
  init                Create a default configuration file
  config-path         Show the configuration file path

Options:
  -c, --config <CONFIG>  Config file path (default: ~/.config/chaselight/config.toml)
  -h, --help             Print help
  -V, --version          Print version

Options of run:
  -m, --mode <MODE>              procedural, script or expression
      --channels <N>             Channel count (default from config)
      --delay <MS>               Base delay in milliseconds (default from config)
      --json                     Print frames as JSON
      --play                     Play the frames in real time after generating them
      --loop                     Loop playback until interrupted
      --speed <FACTOR>           Playback speed multiplier
      --realtime                 Run scripts with real delays
      --instruction-factor <N>   Executed statements allowed per command
  -p, --param <NAME=VALUE>       Expression parameter

Options of expressions:
      --channels <N>             Channel count of the preview rows (default 16)
"

namespace Surroundings

/-- The path of the settings for which none was named. -/
def settingsPath (w : Surroundings) : Except Complaint String :=
  match w.configHome with
  | some home => .ok (CommandLine.settingsPath home)
  | none => .error ⟨"Configuration error: Could not determine config directory", []⟩

/-- The settings of a file.  Without one the usual file counts if it is fit for a run, else the defaults. -/
def settings (w : Surroundings) (config : Option String) : Except Complaint Settings :=
  match config with
  | some path =>
    (Settings.load (w.read path)).mapError fun e => (Complaint.ofSettings e).during s!"Failed to load config: {path}"
  | none =>
    match w.settingsPath with
    | .ok path => .ok ((Settings.load (w.read path)).toOption.getD {})
    | .error _ => .ok {}

/-- The text of a pattern file. -/
def source (w : Surroundings) (file : String) : Except Complaint String :=
  (w.read file).mapError fun e => (Complaint.ofFile e).during s!"Failed to read file: {file}"

end Surroundings

/-! ### Frames -/

/-- The settings with what the options say instead. -/
def overridden (s : Settings) (o : Options) : Settings where
  device := ⟨o.channels.getD s.device.channels,
    match o.delay with
    | some ms => s!"{ms}ms"
    | none => s.device.baseDelay⟩
  procedure := { s.procedure with workFactor := o.workFactor.getD s.procedure.workFactor }
  script := { s.script with fast := s.script.fast && !o.realtime }
  player := { s.player with speed := o.speed.getD s.player.speed, looping := s.player.looping || o.looping }

/-- A text without the blanks around it. -/
def trimmed (s : String) : String := String.ofList (Text.trim s.toList)

/-- The value of a parameter. -/
def paramValueOf (name value : String) : Except Complaint ParamValue :=
  match trimmed value with
  | "true" => .ok (.bool true)
  | "false" => .ok (.bool false)
  | text =>
    match Number.floatOfText? text with
    | some x => .ok (.number x)
    | none =>
      let cause := if text = "" then "cannot parse float from empty string" else "invalid float literal"
      .error ⟨s!"Parameter '{name}' has a non-numeric value", [cause]⟩

/-- A parameter that is written as a name, an equals sign and a value. -/
def parameterOf (text : String) : Except Complaint (String × ParamValue) :=
  let cs := text.toList
  match cs.dropWhile (· ≠ '=') with
  | [] => .error ⟨s!"Parameter '{text}' is not NAME=VALUE", []⟩
  | _ :: value => do
    let name := String.ofList (cs.takeWhile (· ≠ '='))
    return (trimmed name, ← paramValueOf name (String.ofList value))

/-- The pattern of a line: a stock pattern by its id, or an expression; nothing on empty lines and comments. -/
def patternOfLine? (number : Nat) (line : String) : Option Pattern :=
  let line := trimmed line
  if line.isEmpty || line.startsWith "#" || line.startsWith "//" then none
  else some ((Pattern.find? line).getD (.custom s!"Line {number}" line))

/-- The frames of a file of expressions, one a line. -/
def expressionFrames (source : String) (channels : Nat) (delay : Duration) (ps : Parameters) : List Frame :=
  let patterns := (source.splitOn "\n").zipIdx.filterMap fun (line, i) => patternOfLine? (i + 1) line
  (patterns.foldl (fun s p => (s.add p ps delay).1) (PatternSequence.empty channels)).toFrames

/-- The frames of a file, none if the run of a program failed. -/
def framesOf (s : Settings) (o : Options) (source : String) : Except Complaint (Option (List Frame)) := do
  let channels := s.device.channels
  let delay ← s.baseDelay.mapError .ofSettings
  match o.mode.getD .procedural with
  | .procedural => return (Simulation.runSource channels delay s.procedure source).map SimulationReport.frames
  | .script =>
    let limits ← s.scriptLimits.mapError .ofSettings
    let frames ← ((Script.Executor.ofLimits limits).execute source channels delay).1.mapError fun e =>
      ⟨"Script run failed", [e.message]⟩
    return some frames
  | .expression =>
    let ps ← o.params.mapM parameterOf
    return some (expressionFrames source channels delay (.ofList ps))

/-! ### Replies -/

/-- Makes the frames of a file, shows them, and plays them if asked to. -/
def runReply (w : Surroundings) (config : Option String) (file : String) (o : Options) : Except Complaint Reply := do
  let s := overridden (← w.settings config) o
  s.check.mapError fun e => (Complaint.ofSettings e).during "Invalid settings"
  match ← framesOf s o (← w.source file) with
  | none => return .lost
  | some frames =>
    let playback ← s.playbackSettings.mapError .ofSettings
    return { Reply.ofOutput (if o.json then framesDocument frames else framesText frames) with
      played := if o.play || o.looping then some (frames, playback) else none }

/-- Checks a script without running it. -/
def checkReply (w : Surroundings) (config : Option String) (file : String) : Except Complaint Reply := do
  let _ ← w.settings config
  let source ← w.source file
  match Script.validate source with
  | .ok _ => return .ofOutput s!"{file}: ok\n"
  | .error vs =>
    let lines := vs.map fun v => s!"{file}: {v.text}\n"
    return .failed (String.join lines) ⟨s!"{vs.length} violation(s) found", []⟩

/-- Says where the default settings were written. -/
def initReply (w : Surroundings) : Except Complaint Reply := do
  let path ← w.settingsPath
  w.saved.mapError fun e => .ofSettings (.file e)
  return .ofOutput s!"Created default config at: {path}\n"

namespace Invocation

/-- The file that is written before the reply. -/
def saves (i : Invocation) (configHome : Option String) : Option (String × String) :=
  match i.task with
  | .init => configHome.map fun home => (settingsPath home, Settings.commentedText)
  | _ => none

/-- The files that the reply may depend on. -/
def reads (i : Invocation) (configHome : Option String) : List String :=
  let settings := (i.config.or (configHome.map settingsPath)).toList
  match i.task with
  | .run file _ | .check file => file :: settings
  | _ => []

/-- The reply to an invocation. -/
def reply (i : Invocation) (w : Surroundings) : Reply :=
  let result := match i.task with
    | .run file o => runReply w i.config file o
    | .check file => checkReply w i.config file
    | .expressions channels => .ok (.ofOutput (libraryText channels))
    | .init => initReply w
    | .configPath => w.settingsPath.map fun path => .ofOutput (path ++ "\n")
  match result with
  | .ok r => r
  | .error c => .failed "" c

end Invocation

/-- The reply when there is nothing to do. -/
def NoTask.reply : NoTask → Reply
  | misuse => .misused
  | version => .ofOutput versionText
  | help => .ofOutput helpText

/-- The reply to arguments in a tree of files, and the tree afterwards. -/
def respond (tree : FileTree) (configHome : String) (arguments : List String) : Reply × FileTree :=
  match Invocation.ofArguments arguments with
  | .error n => (n.reply, tree)
  | .ok i =>
    let written := match i.saves (some configHome) with
      | some (path, text) => tree.write path text
      | none => .ok tree
    (i.reply ⟨some configHome, tree.read, written.map fun _ => ()⟩, written.toOption.getD tree)

end RunningLights.CommandLine
