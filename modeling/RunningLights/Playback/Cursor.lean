import RunningLights.Frame.Basic

/-!
# The position in a sequence of frames

A `Cursor` steps through frames, once or in a loop, and knows how long each of them is held.

* `advance_of_stopped`, `advance_of_lt`, `advance_of_looping`, `advance_of_last` — all that a step can come to;
* `Cursor.Valid`, `valid_advance`, `valid_setFrames`, `valid_seek` — the position is that of a frame, or zero if
  there are none;
* `Cursor.seek?_isSome` — a position can be moved to exactly if there is a frame.
-/

namespace RunningLights

/-- How a sequence is played. -/
structure PlaybackSettings where
  speed : Float
  looping : Bool
  /-- How long a frame without a delay of its own is held. -/
  fallback : Duration
  deriving Inhabited

/-- A position in a sequence of frames. -/
structure Cursor where
  frames : Array Frame
  index : Nat
  playing : Bool
  looping : Bool
  speed : Float
  /-- The passes completed since the start. -/
  loops : Nat
  fallback : Duration
  deriving Inhabited

/-- What a step came to. -/
inductive CursorStep where
  | next (index : Nat)
  /-- Back at the first frame, after so many passes. -/
  | looped (count : Nat)
  /-- Behind the last frame; the cursor has stopped at the first. -/
  | finished
  /-- The cursor was not playing. -/
  | cancelled
  deriving Repr, DecidableEq, Inhabited

/-- A speed that can be played at: any other than a positive number counts as one. -/
def playableSpeed (x : Float) : Float := if x.isFinite && 0 < x then x else 1.0

namespace Cursor

def ofFrames (frames : Array Frame) (s : PlaybackSettings) : Cursor :=
  ⟨frames, 0, false, s.looping, playableSpeed s.speed, 0, s.fallback⟩

/-- The frame at the position. -/
def current? (c : Cursor) : Option Frame := c.frames[c.index]?

/-- Begins at the first frame; while it is playing there is nothing to begin. -/
def start? (c : Cursor) : Option Cursor :=
  if c.playing then none else some { c with playing := true, index := 0, loops := 0 }

/-- Begins at the first frame, unless it is playing. -/
def start (c : Cursor) : Cursor := c.start?.getD c

/-- Stops at the position; while it is not playing there is nothing to stop. -/
def stop? (c : Cursor) : Option Cursor := if c.playing then some { c with playing := false } else none

/-- Stops at the position. -/
def stop (c : Cursor) : Cursor := c.stop?.getD c

def setLooping (c : Cursor) (looping : Bool) : Cursor := { c with looping }

def setSpeed (c : Cursor) (speed : Float) : Cursor := { c with speed := playableSpeed speed }

/-- Replaces the frames.  A position that they do not have becomes the first. -/
def setFrames (c : Cursor) (frames : Array Frame) : Cursor :=
  { c with frames, index := if c.index < frames.size then c.index else 0 }

/-- Moves to a position; there has to be a frame. -/
def seek? (c : Cursor) (i : Nat) : Option Cursor := if i < c.frames.size then some { c with index := i } else none

/-- Moves to a position, if there is a frame. -/
def seek (c : Cursor) (i : Nat) : Cursor := (c.seek? i).getD c

/-- The nanoseconds that a time takes at a speed, rounded to a whole number within 64 bits. -/
def scaled (d : Duration) (speed : Float) : Duration :=
  ⟨(Float.ofNat d.nanos / speed).round.toUInt64.toNat⟩

/-- The delay of the frame at the position, or the fallback if it has none. -/
def ownDelay (c : Cursor) : Duration :=
  match c.current? with
  | some f => if f.delay.nanos = 0 then c.fallback else f.delay
  | none => c.fallback

/-- How long the frame at the position is held. -/
def delay (c : Cursor) : Duration := scaled c.ownDelay c.speed

/-- Moves to the next frame. -/
def advance (c : Cursor) : Cursor × CursorStep :=
  if !c.playing then (c, .cancelled)
  else if c.index + 1 < c.frames.size then ({ c with index := c.index + 1 }, .next (c.index + 1))
  else if c.looping then ({ c with index := 0, loops := c.loops + 1 }, .looped (c.loops + 1))
  else ({ c with index := 0, playing := false }, .finished)

/-! ### Starting and moving on -/

section

variable {c : Cursor}

theorem start?_of_playing (h : c.playing = true) : c.start? = none := if_pos h

theorem start?_of_stopped (h : c.playing = false) :
    c.start? = some { c with playing := true, index := 0, loops := 0 } :=
  if_neg (by simp [h])

theorem advance_of_stopped (h : c.playing = false) : c.advance = (c, .cancelled) := by
  simp [advance, h]

theorem advance_of_lt (h : c.playing = true) (hlt : c.index + 1 < c.frames.size) :
    c.advance = ({ c with index := c.index + 1 }, .next (c.index + 1)) := by
  simp [advance, h, hlt]

/-- Behind the last frame a loop begins again. -/
theorem advance_of_looping (h : c.playing = true) (hle : c.frames.size ≤ c.index + 1) (hl : c.looping = true) :
    c.advance = ({ c with index := 0, loops := c.loops + 1 }, .looped (c.loops + 1)) := by
  simp [advance, h, Nat.not_lt.2 hle, hl]

/-- Behind the last frame all else ends. -/
theorem advance_of_last (h : c.playing = true) (hle : c.frames.size ≤ c.index + 1) (hl : c.looping = false) :
    c.advance = ({ c with index := 0, playing := false }, .finished) := by
  simp [advance, h, Nat.not_lt.2 hle, hl]

end

/-! ### The position stays in range -/

/-- The position is that of a frame, or zero if there are none. -/
def Valid (c : Cursor) : Prop := c.index < c.frames.size ∨ c.index = 0

theorem valid_ofFrames (frames : Array Frame) (s : PlaybackSettings) : (ofFrames frames s).Valid := .inr rfl

theorem valid_start {c : Cursor} (h : c.Valid) : c.start.Valid := by
  unfold start start?
  split
  · exact h
  · exact .inr rfl

theorem valid_setFrames (c : Cursor) (frames : Array Frame) : (c.setFrames frames).Valid := by
  unfold setFrames Valid
  by_cases h : c.index < frames.size <;> simp [h]

theorem seek?_isSome (c : Cursor) (i : Nat) : (c.seek? i).isSome ↔ i < c.frames.size := by
  simp [seek?]

theorem valid_seek {c : Cursor} (h : c.Valid) (i : Nat) : (c.seek i).Valid := by
  unfold seek seek?
  split
  · exact .inl ‹_›
  · exact h

theorem valid_advance {c : Cursor} (h : c.Valid) : c.advance.1.Valid := by
  unfold advance
  split
  · exact h
  · split
    · exact .inl ‹_›
    · split <;> exact .inr rfl

end Cursor

end RunningLights
