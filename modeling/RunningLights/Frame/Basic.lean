import RunningLights.Frame.Duration

/-!
# Frames

A frame is a timed snapshot of all channels.  Whatever drives the lights changes one live `Channels` buffer and
hands copies of it to a `Recorder`, which numbers them and stops at its cap.

* `Channels.size_set`, `Channels.size_fill` — writing never changes the width;
* `Recorder.capture_of_lt` — below the cap a capture appends one frame, numbered by its place;
* `Recorder.capture_of_le` — at the cap it changes nothing but the mark.
-/

namespace RunningLights

/-- The most frames that one run records unless it is told otherwise. -/
def maxFrames : Nat := 1000

/-- The states of all channels, channel 0 first. -/
abbrev Channels := Array Bool

/-- A snapshot of all channels and how long it is held. -/
structure Frame where
  id : String
  channels : Channels
  delay : Duration
  label : Option String
  deriving Repr, DecidableEq, Inhabited

namespace Channels

/-- Channels that are all off. -/
def blank (n : Nat) : Channels := Array.replicate n false

/-- Sets one channel; beyond the last there is nothing to set. -/
def set (cs : Channels) (i : Nat) (on : Bool) : Channels := cs.setIfInBounds i on

/-- The state of one channel; beyond the last all is off. -/
def get (cs : Channels) (i : Nat) : Bool := cs[i]?.getD false

/-- Sets every channel. -/
def fill (cs : Channels) (on : Bool) : Channels := Array.replicate cs.size on

theorem size_blank (n : Nat) : (blank n).size = n := Array.size_replicate

theorem size_set (cs : Channels) (i : Nat) (on : Bool) : (cs.set i on).size = cs.size :=
  Array.size_setIfInBounds

theorem size_fill (cs : Channels) (on : Bool) : (cs.fill on).size = cs.size := Array.size_replicate

theorem get_set (cs : Channels) (i j : Nat) (on : Bool) :
    (cs.set i on).get j = if i = j ∧ j < cs.size then on else cs.get j := by
  unfold get set
  rw [Array.getElem?_setIfInBounds]
  by_cases h : i = j
  · subst h
    by_cases hi : i < cs.size <;> simp [hi]
  · simp [h]

end Channels

namespace Frame

/-- A frame with every channel off and no label. -/
def blank (id : String) (n : Nat) (delay : Duration) : Frame := ⟨id, .blank n, delay, none⟩

/-- The channels that are on, in ascending order. -/
def active (f : Frame) : List Nat := (List.range f.channels.size).filter f.channels.get

/-- The channels as a row of glyphs. -/
def row (f : Frame) (on off : Char) : String :=
  String.ofList (f.channels.toList.map fun state => if state then on else off)

end Frame

/-- The frames of one run. -/
structure Recorder where
  /-- What the ids of the frames begin with. -/
  stem : String
  /-- The most frames that are kept. -/
  cap : Nat
  frames : Array Frame
  /-- A frame was refused. -/
  truncated : Bool
  deriving Repr, Inhabited

namespace Recorder

/-- A recorder without frames. -/
def empty (stem : String) (cap : Nat) : Recorder := ⟨stem, cap, #[], false⟩

/-- The next capture would be refused. -/
def isFull (r : Recorder) : Bool := r.cap ≤ r.frames.size

/-- The id of the frame numbered `k`, counting from 1. -/
def idOf (r : Recorder) (k : Nat) : String := s!"{r.stem}-frame-{k}"

/-- Appends a copy of the channels.  At the cap it is refused and the recorder is marked. -/
def capture (r : Recorder) (channels : Channels) (delay : Duration) (label : Option String) : Recorder :=
  if r.isFull then { r with truncated := true }
  else { r with frames := r.frames.push ⟨r.idOf (r.frames.size + 1), channels, delay, label⟩ }

variable (r : Recorder) (channels : Channels) (delay : Duration) (label : Option String)

theorem capture_of_lt (h : r.frames.size < r.cap) :
    r.capture channels delay label =
      { r with frames := r.frames.push ⟨r.idOf (r.frames.size + 1), channels, delay, label⟩ } := by
  have : r.isFull = false := by simp [isFull]; omega
  simp [capture, this]

theorem capture_of_le (h : r.cap ≤ r.frames.size) :
    r.capture channels delay label = { r with truncated := true } := by
  have : r.isFull = true := by simp [isFull]; omega
  simp [capture, this]

end Recorder

end RunningLights
