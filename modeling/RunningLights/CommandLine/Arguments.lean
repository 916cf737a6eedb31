import RunningLights.Number.Checked
import RunningLights.Number.Reading

/-!
# Arguments of the program

The arguments name a command, its options and its file.  An option is written `--name value` or `--name=value`, and
some have a letter, `-n value`, `-nvalue` or `-n=value`.  A value begins with a dash only behind an equals sign or
its letter, and everything behind `--` is a file.

* `Invocation.ofArguments` — what the program is asked to do, or why there is nothing to do.
-/

namespace RunningLights.CommandLine

/-- What the lights are programmed in. -/
inductive Mode where
  | procedural
  | script
  | expression
  deriving Repr, DecidableEq, Inhabited

/-- Everything that options may say. -/
structure Options where
  config : Option String := none
  mode : Option Mode := none
  channels : Option Nat := none
  /-- In milliseconds. -/
  delay : Option Nat := none
  speed : Option Float := none
  workFactor : Option Nat := none
  json : Bool := false
  play : Bool := false
  looping : Bool := false
  realtime : Bool := false
  params : List String := []
  file : Option String := none
  deriving Inhabited

/-- What the program can be asked to do. -/
inductive Task where
  | run (file : String) (o : Options)
  | check (file : String)
  | expressions (channels : Nat)
  | init
  | configPath
  deriving Inhabited

/-- A task, and the settings file that was named for it. -/
structure Invocation where
  config : Option String
  task : Task
  deriving Inhabited

/-- Why there is nothing to do. -/
inductive NoTask where
  /-- The arguments break the rules. -/
  | misuse
  | version
  | help
  deriving Repr, DecidableEq, Inhabited

/-! ### Options -/

/-- An option. -/
inductive OptionKey where
  | config
  | mode
  | channels
  | delay
  | json
  | play
  | looping
  | speed
  | realtime
  | workFactor
  | param
  | version
  | help
  deriving Repr, DecidableEq, Inhabited

namespace OptionKey

/-- The name behind two dashes. -/
def name : OptionKey → String
  | config => "config"
  | mode => "mode"
  | channels => "channels"
  | delay => "delay"
  | json => "json"
  | play => "play"
  | looping => "loop"
  | speed => "speed"
  | realtime => "realtime"
  | workFactor => "instruction-factor"
  | param => "param"
  | version => "version"
  | help => "help"

/-- The letter behind one dash. -/
def letter? : OptionKey → Option Char
  | config => some 'c'
  | mode => some 'm'
  | param => some 'p'
  | version => some 'V'
  | help => some 'h'
  | _ => none

/-- The option has no value. -/
def isFlag : OptionKey → Bool
  | json | play | looping | realtime | version | help => true
  | _ => false

end OptionKey

/-- A number of 64 bits, perhaps with a plus sign. -/
def natOfText? (s : String) : Option Nat :=
  let digits := match s.toList with
    | '+' :: ds => ds
    | ds => ds
  (Number.natOfDigits? digits).filter (· < Number.wordBound)

/-- The mode of a name. -/
def Mode.ofName? : String → Option Mode
  | "procedural" => some .procedural
  | "script" => some .script
  | "expression" => some .expression
  | _ => none

/-- A path, which is not empty. -/
def pathOfText? (s : String) : Option String := if s = "" then none else some s

namespace Options

/-- The value of an option that may be given once. -/
def once {α : Type} (old : Option α) (read : String → Option α) (value : String) : Except NoTask (Option α) :=
  match old, read value with
  | none, some v => .ok (some v)
  | _, _ => .error .misuse

/-- A flag that may be given once. -/
def raise (old : Bool) : Except NoTask Bool := if old then .error .misuse else .ok true

/-- Takes an option with its value. -/
def setValue (o : Options) (key : OptionKey) (value : String) : Except NoTask Options := do
  match key with
  | .config => return { o with config := ← once o.config pathOfText? value }
  | .mode => return { o with mode := ← once o.mode Mode.ofName? value }
  | .channels => return { o with channels := ← once o.channels natOfText? value }
  | .delay => return { o with delay := ← once o.delay natOfText? value }
  | .speed => return { o with speed := ← once o.speed Number.floatOfText? value }
  | .workFactor => return { o with workFactor := ← once o.workFactor natOfText? value }
  | .param => return { o with params := o.params ++ [value] }
  | _ => .error .misuse

/-- Takes an option without a value. -/
def setFlag (o : Options) (key : OptionKey) : Except NoTask Options := do
  match key with
  | .json => return { o with json := ← raise o.json }
  | .play => return { o with play := ← raise o.play }
  | .looping => return { o with looping := ← raise o.looping }
  | .realtime => return { o with realtime := ← raise o.realtime }
  | .version => .error .version
  | .help => .error .help
  | _ => .error .misuse

/-- Takes a file, of which a command has one at most. -/
def setFile (takesFile : Bool) (o : Options) (path : String) : Except NoTask Options := do
  if takesFile then return { o with file := ← once o.file pathOfText? path } else .error .misuse

end Options

/-! ### Words -/

/-- What an argument is. -/
inductive Word where
  | plain
  /-- All that follows are files. -/
  | escape
  | flag (key : OptionKey)
  /-- An option with its value, if that is part of the argument. -/
  | valued (key : OptionKey) (value : Option String)
  | unknown
  deriving Repr, DecidableEq, Inhabited

/-- The word of an option by name, whose value may follow an equals sign. -/
def Word.ofName (keys : List OptionKey) (cs : List Char) : Word :=
  let name := String.ofList (cs.takeWhile (· ≠ '='))
  match keys.find? (·.name == name), cs.dropWhile (· ≠ '=') with
  | none, _ => unknown
  | some key, [] => if key.isFlag then flag key else valued key none
  | some key, _ :: value => if key.isFlag then unknown else valued key (some (String.ofList value))

/-- The word of an option by letter, which its value may follow. -/
def Word.ofLetter (keys : List OptionKey) (c : Char) (rest : List Char) : Word :=
  match keys.find? (·.letter? == some c), rest with
  | none, _ => unknown
  | some key, [] => if key.isFlag then flag key else valued key none
  | some key, '=' :: value => if key.isFlag then flag key else valued key (some (String.ofList value))
  | some key, value => if key.isFlag then flag key else valued key (some (String.ofList value))

/-- What an argument is to a command with options. -/
def Word.of (keys : List OptionKey) (argument : String) : Word :=
  match argument.toList with
  | ['-', '-'] => escape
  | '-' :: '-' :: cs => ofName keys cs
  | '-' :: c :: rest => ofLetter keys c rest
  | _ => plain

/-! ### Commands -/

/-- What may stand behind a command, or in front of it. -/
structure Shape where
  keys : List OptionKey
  takesFile : Bool
  /-- The first plain word is a command. -/
  takesCommand : Bool
  deriving Inhabited

/-- Reads the arguments up to the command, or all of them. -/
def Shape.read (s : Shape) : Options → List String → Except NoTask (Options × List String)
  | o, [] => .ok (o, [])
  | o, w :: ws =>
    match Word.of s.keys w with
    | .plain =>
      if s.takesCommand then .ok (o, w :: ws)
      else do s.read (← o.setFile s.takesFile w) ws
    | .escape => do
      let o ← ws.foldlM (Options.setFile s.takesFile) o
      return (o, [])
    | .flag key => do s.read (← o.setFlag key) ws
    | .valued key (some value) => do s.read (← o.setValue key value) ws
    | .valued key none =>
      match ws with
      | [] => .error .misuse
      | value :: ws =>
        if Word.of [] value = .plain then do s.read (← o.setValue key value) ws else .error .misuse
    | .unknown => .error .misuse

namespace Shape

/-- What stands in front of the command. -/
def program : Shape := ⟨[.config, .version, .help], false, true⟩

/-- What stands behind a command with a file or without one, and with options of its own. -/
def command (keys : List OptionKey) (takesFile : Bool) : Shape := ⟨[.config, .help] ++ keys, takesFile, false⟩

end Shape

/-- The names of the commands. -/
def commandNames : List String := ["run", "check", "expressions", "init", "config-path", "help"]

/-- What `run` may be told. -/
def runKeys : List OptionKey :=
  [.mode, .channels, .delay, .json, .play, .looping, .speed, .realtime, .workFactor, .param]

/-- The channels of the preview of the stock patterns, unless others are asked for. -/
def previewChannels : Nat := 16

/-- The file, which has to be there. -/
def Options.needFile (o : Options) : Except NoTask String :=
  match o.file with
  | some file => .ok file
  | none => .error .misuse

/-- The task of a command, and the options behind it. -/
def Task.ofCommand (name : String) (ws : List String) : Except NoTask (Task × Options) := do
  match name with
  | "run" =>
    let (o, _) ← (Shape.command runKeys true).read {} ws
    return (.run (← o.needFile) o, o)
  | "check" =>
    let (o, _) ← (Shape.command [] true).read {} ws
    return (.check (← o.needFile), o)
  | "expressions" =>
    let (o, _) ← (Shape.command [.channels] false).read {} ws
    return (.expressions (o.channels.getD previewChannels), o)
  | "init" =>
    let (o, _) ← (Shape.command [] false).read {} ws
    return (.init, o)
  | "config-path" =>
    let (o, _) ← (Shape.command [] false).read {} ws
    return (.configPath, o)
  | "help" => .error (if (ws.take 1).all commandNames.contains then .help else .misuse)
  | _ => .error .misuse

/-- What the arguments ask for.  A settings file may be named in front of the command or behind it. -/
def Invocation.ofArguments (arguments : List String) : Except NoTask Invocation := do
  let (front, rest) ← Shape.program.read {} arguments
  match rest with
  | [] => .error .misuse
  | name :: ws =>
    let (task, o) ← Task.ofCommand name ws
    return ⟨o.config.or front.config, task⟩

end RunningLights.CommandLine
