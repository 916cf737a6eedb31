import RunningLights.Playback.Cursor

/-!
# Passes of a cursor

A cursor is called in any order, and it may be given other frames while it stands on one of the old ones:

* `CursorCall`, `Cursor.run` — what a cursor is called for, and the calls with their answers;
* `Cursor.Counts` — the position is that of a frame, and the counter tells the passes since the last start; every call
  keeps it so (`Counts.perform`);
* `run_looping`, `run_once` — a start and any number of steps in closed form;
* `Cursor.run_calls` — all of this behind any calls.
-/

namespace RunningLights

/-- What a cursor is called for. -/
inductive CursorCall where
  | start
  | stop
  | advance
  | seek (index : Nat)
  | setLooping (looping : Bool)
  | setSpeed (speed : Float)
  | setFrames (frames : Array Frame)

inductive CursorAnswer where
  /-- Whether there was anything to do. -/
  | success (b : Bool)
  | step (s : CursorStep)
  | nothing
  deriving Repr, DecidableEq

abbrev Exchange := CursorCall × CursorAnswer

namespace Exchange

def isStart : Exchange → Bool
  | (.start, .success true) => true
  | _ => false

/-- A step that led back to the first frame. -/
def isLoop : Exchange → Bool
  | (_, .step (.looped _)) => true
  | _ => false

end Exchange

/-- The exchanges behind the last start that succeeded.  The last exchange comes first, here and below. -/
def sinceStart (history : List Exchange) : List Exchange := history.takeWhile fun e => !e.isStart

/-- The number of steps back to the first frame since the last start that succeeded. -/
def passes (history : List Exchange) : Nat := (sinceStart history).countP Exchange.isLoop

theorem passes_cons (e : Exchange) (history : List Exchange) :
    passes (e :: history) = if e.isStart then 0 else passes history + if e.isLoop then 1 else 0 := by
  unfold passes sinceStart
  cases h : e.isStart <;> simp [h, List.countP_cons]

theorem passes_le_length (history : List Exchange) : passes history ≤ history.length :=
  Nat.le_trans List.countP_le_length (List.takeWhile_sublist _).length_le

namespace CursorStep

/-- What step `i` of a loop through `n` frames comes to, counting from zero. -/
def inLoop (n i : Nat) : CursorStep :=
  if (i + 1) % n = 0 then .looped ((i + 1) / n) else .next ((i + 1) % n)

/-- What step `i` of a single pass through `n` frames comes to. -/
def inPass (n i : Nat) : CursorStep :=
  if i + 1 < n then .next (i + 1) else if i + 1 = n then .finished else .cancelled

end CursorStep

namespace Cursor

def perform (c : Cursor) : CursorCall → Cursor × CursorAnswer
  | .start => (c.start, .success c.start?.isSome)
  | .stop => (c.stop, .success c.stop?.isSome)
  | .advance => (c.advance.1, .step c.advance.2)
  | .seek i => (c.seek i, .success (c.seek? i).isSome)
  | .setLooping looping => (c.setLooping looping, .nothing)
  | .setSpeed speed => (c.setSpeed speed, .nothing)
  | .setFrames frames => (c.setFrames frames, .nothing)

def exchange (state : Cursor × List Exchange) (call : CursorCall) : Cursor × List Exchange :=
  ((state.1.perform call).1, (call, (state.1.perform call).2) :: state.2)

def run (c : Cursor) (calls : List CursorCall) : Cursor × List Exchange := calls.foldl exchange (c, [])

theorem run_concat (c : Cursor) (calls : List CursorCall) (call : CursorCall) :
    c.run (calls ++ [call]) = exchange (c.run calls) call := by
  simp [run]

/-! ### What every call keeps -/

/-- The position is that of a frame, and the counter is the number of passes since the last start. -/
structure Counts (c : Cursor) (history : List Exchange) : Prop where
  valid : c.Valid
  loops : c.loops = passes history

namespace Counts

variable {c : Cursor} {history : List Exchange}

theorem start (h : c.Counts history) :
    c.start.Counts ((.start, .success c.start?.isSome) :: history) := by
  refine ⟨valid_start h.valid, ?_⟩
  rw [passes_cons]
  cases hp : c.playing with
  | true =>
    simp only [Cursor.start, start?_of_playing hp, Option.getD_none, Option.isSome_none]
    exact h.loops
  | false =>
    simp only [Cursor.start, start?_of_stopped hp, Option.getD_some, Option.isSome_some]
    rfl

theorem advance (h : c.Counts history) :
    c.advance.1.Counts ((.advance, .step c.advance.2) :: history) := by
  refine ⟨valid_advance h.valid, ?_⟩
  rw [passes_cons]
  cases hp : c.playing with
  | false =>
    rw [advance_of_stopped hp]
    exact h.loops
  | true =>
    rcases Nat.lt_or_ge (c.index + 1) c.frames.size with hlt | hle
    · rw [advance_of_lt hp hlt]
      exact h.loops
    · cases hl : c.looping with
      | true =>
        rw [advance_of_looping hp hle hl]
        exact congrArg (· + 1) h.loops
      | false =>
        rw [advance_of_last hp hle hl]
        exact h.loops

/-- **Every call keeps the position in range and counts the passes.** -/
theorem perform (h : c.Counts history) (call : CursorCall) :
    (c.perform call).1.Counts ((call, (c.perform call).2) :: history) := by
  cases call with
  | start => exact h.start
  | advance => exact h.advance
  | stop =>
    have hstop : c.stop = { c with playing := false } := by
      unfold Cursor.stop stop?
      split
      · rfl
      · rename_i hp
        simp only [Bool.not_eq_true] at hp
        simp [← hp]
    refine ⟨?_, ?_⟩ <;> simp only [Cursor.perform, hstop, passes_cons]
    · exact h.valid
    · exact h.loops
  | seek i =>
    refine ⟨valid_seek h.valid i, ?_⟩
    have hseek : (c.seek i).loops = c.loops := by
      unfold Cursor.seek seek?
      split <;> rfl
    exact hseek.trans h.loops
  | setLooping looping => exact ⟨h.valid, h.loops⟩
  | setSpeed speed => exact ⟨h.valid, h.loops⟩
  | setFrames frames => exact ⟨valid_setFrames c frames, h.loops⟩

theorem foldl (h : c.Counts history) (calls : List CursorCall) :
    (calls.foldl exchange (c, history)).1.Counts (calls.foldl exchange (c, history)).2 := by
  induction calls generalizing c history with
  | nil => exact h
  | cons call calls ih => exact ih (h.perform call)

theorem run (frames : Array Frame) (s : PlaybackSettings) (calls : List CursorCall) :
    ((ofFrames frames s).run calls).1.Counts ((ofFrames frames s).run calls).2 :=
  have h : (ofFrames frames s).Counts [] := ⟨valid_ofFrames frames s, rfl⟩
  h.foldl calls

end Counts

theorem length_foldl_exchange (state : Cursor × List Exchange) (calls : List CursorCall) :
    (calls.foldl exchange state).2.length = state.2.length + calls.length := by
  induction calls generalizing state with
  | nil => rfl
  | cons call calls ih =>
    rw [List.foldl_cons, ih, exchange, List.length_cons, List.length_cons]
    omega

/-! ### A start and so many steps -/

section

variable {c : Cursor}

/-- The calls of a start and `k` steps. -/
def playCalls (k : Nat) : List CursorCall := .start :: List.replicate k .advance

def playedSteps (step : Nat → CursorStep) (k : Nat) : List Exchange :=
  (.start, .success true) :: (List.range k).map fun i => (.advance, .step (step i))

theorem playCalls_succ (k : Nat) : playCalls (k + 1) = playCalls k ++ [.advance] := by
  simp [playCalls, List.replicate_succ']

theorem reverse_playedSteps_succ (step : Nat → CursorStep) (k : Nat) :
    (playedSteps step (k + 1)).reverse = (.advance, .step (step k)) :: (playedSteps step k).reverse := by
  simp [playedSteps, List.range_succ]

theorem run_start (h : c.playing = false) :
    c.run [.start] = ({ c with playing := true, index := 0, loops := 0 }, [(.start, .success true)]) := by
  simp only [run, List.foldl_cons, List.foldl_nil, exchange, perform, start, start?_of_stopped h]
  rfl

theorem run_succ {d e : Cursor} {step : Nat → CursorStep} {k : Nat}
    (h : c.run (playCalls k) = (d, (playedSteps step k).reverse)) (hd : d.advance = (e, step k)) :
    c.run (playCalls (k + 1)) = (e, (playedSteps step (k + 1)).reverse) := by
  rw [playCalls_succ, run_concat, h, reverse_playedSteps_succ]
  simp only [exchange, perform, hd]

/-- In a loop the steps go round the frames. -/
theorem run_looping (h : c.playing = false) (hn : 0 < c.frames.size) (hl : c.looping = true) (k : Nat) :
    c.run (playCalls k) =
      ({ c with playing := true, index := k % c.frames.size, loops := k / c.frames.size },
        (playedSteps (.inLoop c.frames.size) k).reverse) := by
  induction k with
  | zero =>
    rw [Nat.zero_mod, Nat.zero_div]
    exact run_start h
  | succ k ih =>
    refine run_succ ih ?_
    have hdiv := Nat.div_add_mod k c.frames.size
    have hmod := Nat.mod_lt k hn
    rcases Nat.lt_or_ge (k % c.frames.size + 1) c.frames.size with hlt | hle
    · obtain ⟨hq, hr⟩ : (k + 1) / c.frames.size = k / c.frames.size ∧
          (k + 1) % c.frames.size = k % c.frames.size + 1 :=
        (Nat.div_mod_unique hn).2 ⟨by omega, hlt⟩
      rw [CursorStep.inLoop, if_neg (by omega), hq, hr]
      exact advance_of_lt rfl hlt
    · obtain ⟨hq, hr⟩ : (k + 1) / c.frames.size = k / c.frames.size + 1 ∧ (k + 1) % c.frames.size = 0 :=
        (Nat.div_mod_unique hn).2 ⟨by rw [Nat.mul_succ]; omega, hn⟩
      rw [CursorStep.inLoop, if_pos hr, hq, hr]
      exact advance_of_looping rfl hle hl

/-- Without a loop the steps go through the frames once. -/
theorem run_once (h : c.playing = false) (hn : 0 < c.frames.size) (hl : c.looping = false) (k : Nat) :
    c.run (playCalls k) =
      ({ c with playing := decide (k < c.frames.size), index := if k < c.frames.size then k else 0, loops := 0 },
        (playedSteps (.inPass c.frames.size) k).reverse) := by
  induction k with
  | zero =>
    rw [if_pos hn, decide_eq_true hn]
    exact run_start h
  | succ k ih =>
    refine run_succ ih ?_
    rcases Nat.lt_trichotomy (k + 1) c.frames.size with hlt | heq | hgt
    · have hk : k < c.frames.size := by omega
      rw [if_pos hk, decide_eq_true hk, if_pos hlt, decide_eq_true hlt, CursorStep.inPass, if_pos hlt]
      exact advance_of_lt rfl hlt
    · have hk : k < c.frames.size := by omega
      have hlast : ¬ k + 1 < c.frames.size := by omega
      rw [if_pos hk, decide_eq_true hk, if_neg hlast, decide_eq_false hlast, CursorStep.inPass, if_neg hlast,
        if_pos heq]
      exact advance_of_last rfl (Nat.le_of_eq heq.symm) hl
    · have hk : ¬ k < c.frames.size := by omega
      have hlast : ¬ k + 1 < c.frames.size := by omega
      rw [if_neg hk, decide_eq_false hk, if_neg hlast, decide_eq_false hlast, CursorStep.inPass, if_neg hlast,
        if_neg (by omega)]
      exact advance_of_stopped rfl

end

/-- **Calls of a cursor.**  Whatever a cursor was called for, its position is that of a frame, or zero if there are
none; while it is stopped a step changes nothing; and its counter is the number of passes that it reported since the
last start that succeeded, no more than there were calls.  If it is then started on `n` frames, one at least, `k`
steps lead to position `k % n` with `k / n` passes in a loop; otherwise they lead once through the frames, and from
the last one to a stop at the first. -/
theorem run_calls (frames : Array Frame) (s : PlaybackSettings) (calls : List CursorCall) :
    let c := ((ofFrames frames s).run calls).1
    let history := ((ofFrames frames s).run calls).2
    let n := c.frames.size
    (0 < n → c.index < n) ∧ (n = 0 → c.index = 0) ∧
    (c.playing = false → c.advance = (c, .cancelled)) ∧
    c.loops = passes history ∧ c.loops ≤ calls.length ∧
    (c.playing = false → 0 < n → ∀ k,
      let d := (c.run (playCalls k)).1
      let played := (c.run (playCalls k)).2.reverse
      (c.looping = true → d.playing = true ∧ d.index = k % n ∧ d.loops = k / n ∧ played = playedSteps (.inLoop n) k) ∧
      (c.looping = false → played = playedSteps (.inPass n) k ∧
        (k < n → d.playing = true ∧ d.index = k) ∧ (n ≤ k → d.playing = false ∧ d.index = 0))) := by
  intro c history n
  have h : c.Counts history := .run frames s calls
  have hvalid : c.index < n ∨ c.index = 0 := h.valid
  have hlength : history.length = calls.length := (length_foldl_exchange _ calls).trans (Nat.zero_add _)
  have hle : c.loops ≤ calls.length := h.loops ▸ hlength ▸ passes_le_length history
  refine ⟨by omega, by omega, advance_of_stopped, h.loops, hle, fun hp hn k => ⟨fun hl => ?_, fun hl => ?_⟩⟩
  · rw [run_looping hp hn hl k]
    exact ⟨rfl, rfl, rfl, List.reverse_reverse _⟩
  · rw [run_once hp hn hl k]
    refine ⟨List.reverse_reverse _, fun hk => ?_, fun hk => ?_⟩
    · exact ⟨decide_eq_true hk, if_pos hk⟩
    · exact ⟨decide_eq_false (Nat.not_lt.2 hk), if_neg (Nat.not_lt.2 hk)⟩

def evenFrames (n : Nat) : Array Frame := Array.replicate n (.blank "f" 4 (.ofMillis 10))

/-- A cursor in the middle of two frames that is given three. -/
def replacingCalls : List CursorCall := [.start, .advance, .setFrames (evenFrames 3), .stop]

theorem run_calls_threeFrames :
    let c := ((ofFrames (evenFrames 2) ⟨1, true, .ofMillis 100⟩).run replacingCalls).1
    c.playing = false ∧ c.looping = true ∧ c.index = 1 ∧ c.frames.size = 3 ∧
      (c.run (playCalls 7)).1.index = 1 ∧ (c.run (playCalls 7)).1.loops = 2 := by
  obtain ⟨-, -, -, -, -, hplay⟩ := run_calls (evenFrames 2) ⟨1, true, .ofMillis 100⟩ replacingCalls
  obtain ⟨-, hindex, hloops, -⟩ := (hplay rfl (by decide) 7).1 rfl
  exact ⟨rfl, rfl, rfl, rfl, hindex, hloops⟩

end Cursor

end RunningLights
