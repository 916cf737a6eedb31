import RunningLights.Pattern.Basic

/-!
# Sequences of pattern frames

A sequence evaluates patterns for one number of channels and keeps the results, up to the frame cap.  A change of
the number of channels empties it.
-/

namespace RunningLights

/-- One frame of a sequence and how it was made. -/
structure SequenceFrame where
  /-- The place in the sequence, counting from 1. -/
  number : Nat
  pattern : Pattern
  channels : Channels
  parameters : Parameters
  duration : Duration
  label : String
  deriving Inhabited

/-- Frames made from patterns for one number of channels. -/
structure PatternSequence where
  evaluator : Evaluator
  frames : Array SequenceFrame
  /-- A frame was refused since the last clearing. -/
  truncated : Bool
  deriving Inhabited

/-- The frame as others see it. -/
def SequenceFrame.toFrame (f : SequenceFrame) : Frame :=
  ⟨s!"expr-frame-{f.number}", f.channels, f.duration, some f.label⟩

/-- The label of a frame: the pattern's name and its parameters, if there are any. -/
def sequenceLabel (name : String) (ps : Parameters) : String :=
  if ps.entries.isEmpty then name
  else
    let written := ps.entries.map fun (n, v) => n ++ "=" ++ v.text
    name ++ " (" ++ ", ".intercalate written ++ ")"

namespace PatternSequence

def empty (total : Nat) : PatternSequence := ⟨.ofTotal total, #[], false⟩

/-- The number of channels of the frames. -/
def total (s : PatternSequence) : Nat := s.evaluator.total

/-- The frame that a pattern makes as the `number`-th of a sequence. -/
def frameOf (total number : Nat) (p : Pattern) (overrides : Parameters) (duration : Duration) : SequenceFrame :=
  let ps := p.resolve overrides
  ⟨number, p, maskOf p.text total ps, ps, duration, sequenceLabel p.name ps⟩

/-- Appends a frame, unless the sequence is full.  The evaluator keeps the parameters of the frame. -/
def add (s : PatternSequence) (p : Pattern) (overrides : Parameters) (duration : Duration) :
    PatternSequence × Option SequenceFrame :=
  if maxFrames ≤ s.frames.size then ({ s with truncated := true }, none)
  else
    let ps := p.resolve overrides
    let evaluator := s.evaluator.setParameters ps
    let f : SequenceFrame :=
      ⟨s.frames.size + 1, p, evaluator.evaluate p.text, ps, duration, sequenceLabel p.name ps⟩
    ({ s with evaluator, frames := s.frames.push f }, some f)

/-- Removes all frames. -/
def clear (s : PatternSequence) : PatternSequence := { s with frames := #[], truncated := false }

/-- Changes the number of channels, which removes all frames. -/
def setTotal (s : PatternSequence) (total : Nat) : PatternSequence :=
  { s with evaluator := .ofTotal total }.clear

/-- The hold time of a frame for which none was chosen. -/
def defaultDuration : Duration := .ofMillis 100

/-- The frames as others see them; an empty sequence shows one frame with every channel off. -/
def toFrames (s : PatternSequence) : List Frame :=
  if s.frames.isEmpty then
    [{ Frame.blank "expr-frame-0" s.total defaultDuration with label := some "Empty Pattern" }]
  else s.frames.toList.map SequenceFrame.toFrame

end PatternSequence

end RunningLights
