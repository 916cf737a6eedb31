import RunningLights.Playback.Player

/-!
# What the events of a player tell

An observer knows when a playback began and receives the events, nothing else.  A player is called in any order, and
delays end in between:

* `PlayerCall`, `Player.run` — the calls, and a log of what came of them;
* `shownIndex`, `lostSinceShown` — the frame that the events lead an observer to, and whether it was taken away
  without an event;
* `Player.Follows` — the position is the one shown as long as the frame was not taken away; every call keeps it so
  (`Follows.perform`);
* `Player.index_of_calls` — all of this behind any calls, and exactly when the observer is right;
* `Player.not_always_shown` — new frames can move the position without an event.
-/

namespace RunningLights

/-- What happens to a player: it is called, or a delay ends. -/
inductive PlayerCall where
  | start
  | stop
  | startLooping
  | stopLooping
  | setLooping (looping : Bool)
  | setSpeed (speed : Float)
  | setFrames (frames : Array Frame)
  | expire

inductive Happening where
  /-- A playback began, at the first frame. -/
  | began
  | published (e : PlaybackEvent)
  /-- The new frames do not have the position, and it became the first. -/
  | lost
  deriving Repr, DecidableEq

/-- The events of a log, in order.  A log has what happened last in front, here and below. -/
def publishedEvents (log : List Happening) : List PlaybackEvent :=
  log.reverse.filterMap fun
    | .published e => some e
    | _ => none

/-- The position that the events tell: the one they told last since the playback began, or the first. -/
def shownIndex : List Happening → Nat
  | [] => 0
  | .began :: _ => 0
  | .published (.frameChanged i) :: _ => i
  | _ :: log => shownIndex log

/-- Whether the frame at the position that the events tell was taken away since. -/
def lostSinceShown : List Happening → Bool
  | [] => false
  | .began :: _ => false
  | .published (.frameChanged _) :: _ => false
  | .lost :: _ => true
  | _ :: log => lostSinceShown log

theorem publishedEvents_append (new log : List Happening) :
    publishedEvents (new ++ log) = publishedEvents log ++ publishedEvents new := by
  simp [publishedEvents]

theorem publishedEvents_map (es : List PlaybackEvent) : publishedEvents (es.map .published).reverse = es := by
  rw [publishedEvents, List.reverse_reverse, List.filterMap_map]
  exact List.filterMap_some

namespace Player

def perform (p : Player) : PlayerCall → Player
  | .start => p.start
  | .stop => p.stop
  | .startLooping => p.startLooping
  | .stopLooping => p.stopLooping
  | .setLooping looping => p.setLooping looping
  | .setSpeed speed => p.setSpeed speed
  | .setFrames frames => p.setFrames frames
  | .expire => p.expire

def happenings (p : Player) : PlayerCall → List Happening
  | .start | .startLooping => if p.cursor.playing then [] else [.began]
  | .setFrames frames => if p.cursor.index < frames.size then [] else [.lost]
  | .expire => (p.cursor.advance.2.events.map .published).reverse
  | .stop | .stopLooping | .setLooping _ | .setSpeed _ => []

/-- Makes a call and logs what comes of it. -/
def observe (state : Player × List Happening) (call : PlayerCall) : Player × List Happening :=
  (state.1.perform call, state.1.happenings call ++ state.2)

def run (p : Player) (calls : List PlayerCall) : Player × List Happening := calls.foldl observe (p, [])

/-! ### What every call keeps -/

/-- The events wait in the order of the log, and a playback is where they tell, or at the first frame if they do not
tell that the frame was taken away. -/
structure Follows (p : Player) (log : List Happening) : Prop where
  waiting : p.waiting = publishedEvents log
  index : p.cursor.playing = true → p.cursor.index = if lostSinceShown log then 0 else shownIndex log

namespace Follows

variable {p : Player} {log : List Happening}

theorem start (h : p.Follows log) : p.start.Follows ((if p.cursor.playing then [] else [.began]) ++ log) := by
  cases hp : p.cursor.playing with
  | true =>
    have hstart : p.start = p := by simp [Player.start, Cursor.start, Cursor.start?_of_playing hp]
    rw [hstart]
    exact h
  | false =>
    refine ⟨?_, fun _ => ?_⟩
    · rw [publishedEvents_append]
      exact h.waiting.trans (List.append_nil _).symm
    · simp [Player.start, Cursor.start, Cursor.start?_of_stopped hp, lostSinceShown, shownIndex]

theorem setLooping (h : p.Follows log) (looping : Bool) : (p.setLooping looping).Follows log := ⟨h.waiting, h.index⟩

theorem stop (h : p.Follows log) : p.stop.Follows log := by
  refine ⟨h.waiting, fun hplaying => ?_⟩
  cases hp : p.cursor.playing <;> simp [Player.stop, Cursor.stop, Cursor.stop?, hp] at hplaying

theorem setFrames (h : p.Follows log) (frames : Array Frame) :
    (p.setFrames frames).Follows ((if p.cursor.index < frames.size then [] else [.lost]) ++ log) := by
  by_cases hlt : p.cursor.index < frames.size
  · have hcursor : (p.cursor.setFrames frames).index = p.cursor.index := if_pos hlt
    rw [if_pos hlt]
    exact ⟨h.waiting, fun hplaying => hcursor.trans (h.index hplaying)⟩
  · have hcursor : (p.cursor.setFrames frames).index = 0 := if_neg hlt
    rw [if_neg hlt]
    refine ⟨?_, fun _ => hcursor⟩
    rw [publishedEvents_append]
    exact h.waiting.trans (List.append_nil _).symm

theorem expire (h : p.Follows log) :
    p.expire.Follows ((p.cursor.advance.2.events.map .published).reverse ++ log) := by
  refine ⟨?_, fun hplaying => ?_⟩
  · rw [publishedEvents_append, publishedEvents_map, ← h.waiting]
    rfl
  · simp only [Player.expire] at hplaying ⊢
    cases hp : p.cursor.playing with
    | false => simp [Cursor.advance_of_stopped hp, hp] at hplaying
    | true =>
      rcases Nat.lt_or_ge (p.cursor.index + 1) p.cursor.frames.size with hlt | hle
      · rw [Cursor.advance_of_lt hp hlt]
        rfl
      · cases hl : p.cursor.looping with
        | true =>
          rw [Cursor.advance_of_looping hp hle hl]
          rfl
        | false => simp [Cursor.advance_of_last hp hle hl] at hplaying

/-- **Every call keeps the position where the log has it.** -/
theorem perform (h : p.Follows log) (call : PlayerCall) : (p.perform call).Follows (p.happenings call ++ log) := by
  cases call with
  | start => exact h.start
  | stop => exact h.stop
  | startLooping => exact (h.setLooping true).start
  | stopLooping => exact (h.setLooping false).stop
  | setLooping looping => exact h.setLooping looping
  | setSpeed speed => exact ⟨h.waiting, h.index⟩
  | setFrames frames => exact h.setFrames frames
  | expire => exact h.expire

theorem foldl (h : p.Follows log) (calls : List PlayerCall) :
    (calls.foldl observe (p, log)).1.Follows (calls.foldl observe (p, log)).2 := by
  induction calls generalizing p log with
  | nil => exact h
  | cons call calls ih => exact ih (h.perform call)

theorem run (frames : Array Frame) (s : PlaybackSettings) (calls : List PlayerCall) :
    ((ofFrames frames s).run calls).1.Follows ((ofFrames frames s).run calls).2 :=
  have h : (ofFrames frames s).Follows [] := ⟨rfl, nofun⟩
  h.foldl calls

end Follows

/-- **What the events tell.**  Whatever a player was called for and whatever delays ended in between, the events wait
in the order in which they were published.  As long as it is playing, its position is the one that the last of them
told since the playback began, or the first if none did, unless frames without that position were set since then:
they lead to the first frame, and the observer is right only if it shows the first frame already. -/
theorem index_of_calls (frames : Array Frame) (s : PlaybackSettings) (calls : List PlayerCall) :
    let p := ((ofFrames frames s).run calls).1
    let log := ((ofFrames frames s).run calls).2
    p.waiting = publishedEvents log ∧
    (p.cursor.playing = true →
      (lostSinceShown log = false → p.cursor.index = shownIndex log) ∧
      (lostSinceShown log = true → p.cursor.index = 0) ∧
      (p.cursor.index = shownIndex log ↔ shownIndex log = 0 ∨ lostSinceShown log = false)) := by
  intro p log
  have h : p.Follows log := .run frames s calls
  refine ⟨h.waiting, fun hp => ?_⟩
  have hindex := h.index hp
  cases hlost : lostSinceShown log with
  | true =>
    rw [hlost, if_pos rfl] at hindex
    exact ⟨nofun, fun _ => hindex, by simp [hindex, eq_comm]⟩
  | false =>
    rw [hlost, if_neg (by decide)] at hindex
    exact ⟨fun _ => hindex, nofun, by simp [hindex]⟩

def longFrames (n : Nat) : Array Frame := Array.replicate n (.blank "f" 4 (.ofMillis 600000))

theorem index_of_calls_shrinking :
    let run := (ofFrames (longFrames 3) ⟨1, true, .ofMillis 100⟩).run
      [.start, .expire, .expire, .setFrames (longFrames 2), .expire]
    run.1.cursor.playing = true ∧ run.1.cursor.index = shownIndex run.2 := by
  obtain ⟨-, h⟩ := index_of_calls (longFrames 3) ⟨1, true, .ofMillis 100⟩
    [.start, .expire, .expire, .setFrames (longFrames 2), .expire]
  exact ⟨rfl, (h rfl).1 rfl⟩

/-- New frames can move a playback without an event: the observer still shows the second frame of two when there is
one. -/
theorem not_always_shown :
    let run := (ofFrames (longFrames 2) ⟨1, false, .ofMillis 100⟩).run [.start, .expire, .setFrames (longFrames 1)]
    run.1.cursor.playing = true ∧ run.1.waiting = [.frameChanged 1] ∧ shownIndex run.2 = 1 ∧
      run.1.cursor.index = 0 :=
  ⟨rfl, rfl, rfl, rfl⟩

end Player

end RunningLights
