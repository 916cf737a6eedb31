import RunningLights.Frame.Json
import RunningLights.Pattern.Library
import RunningLights.Pattern.Sequence

/-!
# Frames and patterns as lines

* `frameLine`, `framesText` — a frame on a line, and all frames with their number and their time;
* `playedText` — what one pass of playback writes: each frame over the one before it;
* `libraryText` — the stock patterns with what they look like.
-/

namespace RunningLights.CommandLine

/-- A channel that is on. -/
def litGlyph : Char := '●'

/-- A channel that is off. -/
def darkGlyph : Char := '○'

/-- The text, moved to the right end of a column. -/
def padLeft (width : Nat) (s : String) : String := String.ofList (List.replicate (width - s.length) ' ') ++ s

/-- The text at the left end of a column. -/
def padRight (width : Nat) (s : String) : String := s ++ String.ofList (List.replicate (width - s.length) ' ')

/-- The channels of a frame as glyphs. -/
def rowOf (f : Frame) : String := f.row litGlyph darkGlyph

/-- The frame at a place, counting from 0: its number, its channels, its delay and its label. -/
def frameLine (place : Nat) (f : Frame) : String :=
  let line := padLeft 4 (toString (place + 1)) ++ "  " ++ rowOf f ++ "  " ++
    padLeft 5 (toString f.delay.wholeMillis) ++ "ms"
  match f.label with
  | some label => line ++ "  " ++ label
  | none => line

/-- The milliseconds of all frames. -/
def totalMillis (fs : List Frame) : Nat := fs.foldl (fun total f => total + f.delay.wholeMillis) 0

/-- All frames, and a line with their number and their time. -/
def framesText (fs : List Frame) : String :=
  String.join (fs.zipIdx.map fun (f, i) => frameLine i f ++ "\n") ++
    s!"{fs.length} frame(s), {totalMillis fs}ms total\n"

/-- All frames as a JSON document. -/
def framesDocument (fs : List Frame) : String :=
  String.ofList (Json.pretty (.array (fs.map Frame.toJson))) ++ "\n"

/-- The frame at a place over the line that stands there. -/
def redrawn (place : Nat) (f : Frame) : String := "\r\x1b[2K" ++ frameLine place f

/-- The first frame at the start of a line. -/
def drawn (f : Frame) : String := "\r" ++ frameLine 0 f

/-- One pass over frames. -/
def playedText : List Frame → String
  | [] => ""
  | f :: fs => drawn f ++ String.join (fs.zipIdx.map fun (f, i) => redrawn (i + 1) f) ++ "\n"

/-- A stock pattern with the channels that it turns on. -/
def patternLine (channels : Nat) (p : Pattern) : String :=
  let shown := (PatternSequence.frameOf channels 1 p .empty ⟨0⟩).toFrame
  padRight 18 p.id ++ " " ++ padRight 13 p.category.word ++ " " ++ rowOf shown ++ "  " ++ p.text ++ "\n"

/-- All stock patterns. -/
def libraryText (channels : Nat) : String := String.join (Pattern.library.map (patternLine channels))

end RunningLights.CommandLine
