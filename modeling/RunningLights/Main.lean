import RunningLights.CommandLine.Invocation

/-!
# The program

Decodes the arguments, reads the files that the invocation may need, writes the reply and plays frames in real time.
-/

open RunningLights RunningLights.CommandLine

namespace RunningLights.Terminal

/-- The error of a number that the system gives to paths of the wrong kind, with either sign. -/
def kindError (code : UInt32) : FileError := if code = 21 ∨ code = 0 - 21 then .isDirectory else .notDirectory

/-- The text of a file. -/
def readText (path : String) : IO (Except FileError String) := do
  try
    return .ok (← IO.FS.readFile path)
  catch
    | .noFileOrDirectory .. => return .error .missing
    | .inappropriateType _ code _ => return .error (kindError code)
    | .userError _ => return .error .notText
    | _ => return .error .missing

/-- Writes a file, after making the directories on the way to it. -/
def writeText (path text : String) : IO (Except FileError Unit) := do
  try
    IO.FS.createDirAll ("/".intercalate (path.splitOn "/").dropLast)
    IO.FS.writeFile path text
    return .ok ()
  catch
    | .alreadyExists .. => return .error .exists
    | .inappropriateType _ code _ => return .error (kindError code)
    | _ => return .error .missing

/-- The directory of the settings of all programs. -/
def configHome? : IO (Option String) := do
  match ← IO.getEnv "XDG_CONFIG_HOME" with
  | some home => if home.startsWith "/" then return some home
  | none => pure ()
  return (← IO.getEnv "HOME").map (· ++ "/.config")

/-- Writes a text at once. -/
def write (text : String) : IO Unit := do
  IO.print text
  (← IO.getStdout).flush

/-- The longest time to sleep at once, in milliseconds. -/
def longestSleep : Nat := 4294967295

/-- Draws every frame over the one before it, until the cursor stops. -/
partial def play (c : Cursor) : IO Unit := do
  IO.sleep (min longestSleep c.delay.wholeMillis).toUInt32
  let c := c.advance.1
  match c.playing, c.current? with
  | true, some f =>
    write (redrawn c.index f)
    play c
  | _, _ => write "\n"

/-- Plays frames from the first. -/
def playFrames (frames : List Frame) (s : PlaybackSettings) : IO Unit := do
  let c := Cursor.ofFrames frames.toArray s
  match c.current? with
  | some f =>
    write (drawn f)
    play c.start
  | none => pure ()

/-- Writes a reply. -/
def answer (r : Reply) : IO UInt32 := do
  write r.output
  IO.eprint r.errors
  match r.played with
  | some (frames, s) => playFrames frames s
  | none => pure ()
  return r.status.toUInt32

/-- Carries out an invocation. -/
def perform (i : Invocation) : IO UInt32 := do
  let home ← configHome?
  let texts ← (i.reads home).mapM fun path => return (path, ← readText path)
  let saved ← match i.saves home with
    | some (path, text) => writeText path text
    | none => pure (.ok ())
  answer (i.reply ⟨home, fun path => (texts.lookup path).getD (.error .missing), saved⟩)

end RunningLights.Terminal

def main (arguments : List String) : IO UInt32 := do
  match Invocation.ofArguments arguments with
  | .ok i => Terminal.perform i
  | .error n =>
    if n = .misuse then IO.eprintln "error: the arguments are not understood; --help explains them"
    Terminal.answer n.reply
