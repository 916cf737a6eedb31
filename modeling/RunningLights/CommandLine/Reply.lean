import RunningLights.CommandLine.Listing
import RunningLights.Settings.Basic

/-!
# Replies

A `Reply` is all that an invocation shows: an exit status, the two outputs, and the frames that are played at the
end.  What went wrong is a `Complaint` with its causes.
-/

namespace RunningLights.CommandLine

/-- What went wrong, and the causes behind it, the nearest one first. -/
structure Complaint where
  message : String
  causes : List String
  deriving Repr, DecidableEq, Inhabited

namespace Complaint

def ofSettings (e : SettingsError) : Complaint := ⟨e.message, e.cause?.toList⟩

/-- A complaint about a file. -/
def ofFile (e : FileError) : Complaint := ⟨e.message, []⟩

/-- What was being done when it went wrong. -/
def during (c : Complaint) (message : String) : Complaint := ⟨message, c.message :: c.causes⟩

/-- A text whose further lines are moved to the right. -/
def hanging (width : Nat) (s : String) : String :=
  ("\n" ++ String.ofList (List.replicate width ' ')).intercalate (s.splitOn "\n")

/-- A cause, with its number unless it is the only one. -/
def causeText (isOnly : Bool) (number : Nat) (cause : String) : String :=
  if isOnly then "\n    " ++ hanging 4 cause else "\n" ++ padLeft 5 (toString number) ++ ": " ++ hanging 7 cause

/-- The text of a complaint. -/
def text (c : Complaint) : String :=
  let causes := c.causes.zipIdx.map fun (cause, i) => causeText (c.causes.length = 1) i cause
  "Error: " ++ c.message ++ (if c.causes.isEmpty then "" else "\n\nCaused by:") ++ String.join causes ++ "\n"

end Complaint

/-- What an invocation shows. -/
structure Reply where
  status : Nat
  output : String
  errors : String
  /-- Frames that are played behind the output. -/
  played : Option (List Frame × PlaybackSettings)
  deriving Inhabited

namespace Reply

/-- Success, with an output. -/
def ofOutput (output : String) : Reply := ⟨0, output, "", none⟩

/-- Failure behind an output. -/
def failed (output : String) (c : Complaint) : Reply := ⟨1, output, c.text, none⟩

/-- A run that failed, of which nothing is shown. -/
def lost : Reply := ⟨101, "", "", none⟩

/-- Arguments that break the rules. -/
def misused : Reply := ⟨2, "", "", none⟩

/-- The output with one pass of playback. -/
def shown (r : Reply) : String :=
  match r.played with
  | some (frames, _) => r.output ++ playedText frames
  | none => r.output

end Reply

end RunningLights.CommandLine
