import RunningLights.Playback.Cursor

/-!
# Playing a sequence

A `Player` moves a cursor whenever the delay of a frame has passed and publishes what happened.  Time itself is not
part of it: `Player.expire` is what the end of a delay does.  A delay runs whenever the cursor is playing, and any
change of the timing begins a new one.
-/

namespace RunningLights

/-- What a player publishes. -/
inductive PlaybackEvent where
  | frameChanged (index : Nat)
  | looped (count : Nat)
  | finished
  deriving Repr, DecidableEq, Inhabited

/-- The events of a step. -/
def CursorStep.events : CursorStep → List PlaybackEvent
  | .next i => [.frameChanged i]
  | .looped n => [.looped n, .frameChanged 0]
  | .finished => [.finished]
  | .cancelled => []

/-- The sequence has ended, or so many passes have. -/
def PlaybackEvent.ends (loops : Option Nat) : PlaybackEvent → Bool
  | .finished => true
  | .looped n => some n == loops
  | .frameChanged _ => false

/-- A cursor, and the events that have been published and not yet received. -/
structure Player where
  cursor : Cursor
  waiting : List PlaybackEvent
  deriving Inhabited

namespace Player

def ofFrames (frames : Array Frame) (s : PlaybackSettings) : Player := ⟨.ofFrames frames s, []⟩

/-- Plays from the first frame, unless it is playing. -/
def start (p : Player) : Player := { p with cursor := p.cursor.start }

def stop (p : Player) : Player := { p with cursor := p.cursor.stop }

def setLooping (p : Player) (looping : Bool) : Player := { p with cursor := p.cursor.setLooping looping }

/-- Plays in a loop, from the first frame unless it is playing. -/
def startLooping (p : Player) : Player := (p.setLooping true).start

/-- Ends the loop and stops. -/
def stopLooping (p : Player) : Player := (p.setLooping false).stop

def setSpeed (p : Player) (speed : Float) : Player := { p with cursor := p.cursor.setSpeed speed }

def setFrames (p : Player) (frames : Array Frame) : Player := { p with cursor := p.cursor.setFrames frames }

/-- The end of a delay: the cursor moves, and the events of its step are published. -/
def expire (p : Player) : Player :=
  let (cursor, step) := p.cursor.advance
  ⟨cursor, p.waiting ++ step.events⟩

/-- Receives events, letting delays end whenever none is waiting, up to the first one that `isLast` holds of.  With
nothing playing and nothing waiting there is nothing more to receive; `fuel` bounds the number of steps. -/
def receive (isLast : PlaybackEvent → Bool) : (fuel : Nat) → Player → List PlaybackEvent × Player
  | 0, p => ([], p)
  | fuel + 1, p =>
    match p.waiting with
    | e :: es =>
      if isLast e then ([e], { p with waiting := es })
      else
        let (rest, p) := receive isLast fuel { p with waiting := es }
        (e :: rest, p)
    | [] => if p.cursor.playing then receive isLast fuel p.expire else ([], p)

/-- A bound on the steps of `receive` up to the end of so many passes: each pass is one delay and at most two events
for a frame, and one pass may be under way. -/
def passSteps (p : Player) (loops : Nat) : Nat := 4 * (loops + 2) * (p.cursor.frames.size + 2) + p.waiting.length

/-- Receives events up to the end of the sequence, or of so many passes if it loops. -/
def receivePasses (p : Player) (loops : Option Nat) : List PlaybackEvent × Player :=
  p.receive (·.ends loops) (p.passSteps (loops.getD 0))

end Player

end RunningLights
