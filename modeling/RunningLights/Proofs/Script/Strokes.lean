import RunningLights.Script.Session

/-!
# Strokes

What a script asks of the strip comes down to strokes: some channels change, or the channels are shown as they are.
The helpers are no more than sequences of these:

* `Stroke` — an elementary call;
* `Session.played` — all that a stroke can do to the session;
* `Request.strokes` — the strokes of a request;
* `Session.perform_eq` — a request is carried out by its strokes, one after another, up to the first that is refused.
-/

namespace RunningLights.Script

/-- An elementary call of a script. -/
inductive Stroke where
  | set (index : Int64) (on : Bool)
  | fill (on : Bool)
  /-- All channels at once. -/
  | paint (plan : Channels)
  | pause (ms : Int64)
  deriving DecidableEq

namespace Stroke

def change : Stroke → Channels → Channels
  | set index on, channels => if 0 ≤ index.toInt then channels.set index.toInt.toNat on else channels
  | fill on, channels => channels.fill on
  | paint plan, _ => plan
  | pause _, channels => channels

/-- How long a stroke shows the channels, if it does. -/
def delay? : Stroke → Option Duration
  | pause ms => some (.ofMillis ms.toInt.toNat)
  | _ => none

def play : Stroke → Play Unit
  | set index on => modify (Session.setChannel index on)
  | fill on => modify fun s => { s with channels := s.channels.fill on }
  | paint plan => modify fun s => { s with channels := plan }
  | pause ms => Session.pause ms

end Stroke

/-- A second computation follows a first on the state that this one leaves, unless it ends early. -/
theorem bind_apply {ε σ α β : Type} (p : ExceptT ε (StateM σ) α) (f : α → ExceptT ε (StateM σ) β) (s : σ) :
    (p >>= f) s = match p s with
      | (.ok a, s) => f a s
      | (.error e, s) => (.error e, s) := by
  change ExceptT.bindCont f (p s).1 (p s).2 = _
  cases p s with
  | mk result s =>
    cases result <;> rfl

namespace Session

-- Proved by a tactic, so that simp takes neither of them for a definitional step that is checked by unfolding sessions.
theorem modify_apply {β : Type} (f : Session → Session) (g : Unit → Play β) (s : Session) :
    (modify f >>= g) s = g () (f s) := by rfl

theorem get_apply {β : Type} (g : Session → Play β) (s : Session) : (get >>= g) s = g s s := by rfl

/-! ### What a stroke can do -/

/-- A stroke changes the channels, or it is a pause.  A pause is refused, and then nothing happens, or it is admitted,
and then time passes, which may abort the run. -/
inductive Played (stroke : Stroke) (s : Session) : Except Abort Unit × Session → Prop
  | changed (h : stroke.delay? = none) :
      Played stroke s (.ok (), { s with channels := stroke.change s.channels })
  | refused {delay : Duration} {a : Abort} (h : stroke.delay? = some delay)
      (hrefused : s.stopRequested ∨ s.frameCap ≤ s.pauses) : Played stroke s (.error a, s)
  | shown {delay : Duration} {result : Except Abort Unit} {elapsed : Duration} (h : stroke.delay? = some delay)
      (hcap : s.pauses < s.frameCap) (hresult : s.realtime = false → result = .ok ()) :
      Played stroke s (result, { s with
        pauses := s.pauses + 1
        recorder := s.recorder.capture s.channels delay none
        elapsed })

theorem checkClock_snd (s : Session) : (checkClock s).2 = s := by
  change ((if s.wallClock.nanos < s.elapsed.nanos then throw _ else pure () : Play Unit) s).2 = s
  split <;> rfl

/-- Whoever waits has not been asked to stop, so only the clock is checked. -/
theorem wait_apply (delay : Duration) {s : Session} (hrun : ¬ s.stopRequested) :
    wait delay s =
      if s.realtime ∧ delay.nanos ≠ 0 then checkClock { s with elapsed := s.elapsed + delay + operationTime }
      else (.ok (), s) := by
  rw [wait, get_apply]
  by_cases hwait : s.realtime ∧ delay.nanos ≠ 0
  · simp only [if_pos hwait, if_neg hrun]
    rfl
  · simp only [if_neg hwait]
    rfl

/-- The session in which an admitted pause waits. -/
def shown (ms : Int64) (s : Session) : Session :=
  { s with pauses := s.pauses + 1, recorder := s.recorder.capture s.channels (.ofMillis ms.toInt.toNat) none }

theorem pause_apply (ms : Int64) (s : Session) :
    pause ms s =
      if s.stopRequested then (.error .stopped, s)
      else if s.frameCap ≤ s.pauses then (.error (.frameLimit s.frameCap), s)
      else if s.realtime ∧ (Duration.ofMillis ms.toInt.toNat).nanos ≠ 0 then
        checkClock { shown ms s with elapsed := s.elapsed + .ofMillis ms.toInt.toNat + operationTime }
      else (.ok (), shown ms s) := by
  rw [pause, get_apply]
  by_cases hrun : s.stopRequested
  · simp only [if_pos hrun]
    rfl
  · by_cases hcap : s.frameCap ≤ s.pauses
    · simp only [if_neg hrun, if_pos hcap]
      rfl
    · have hrun' : ¬ (shown ms s).stopRequested := hrun
      simp only [if_neg hrun, if_neg hcap]
      exact wait_apply _ hrun'

theorem played_pause (ms : Int64) (s : Session) : Played (.pause ms) s (pause ms s) := by
  rw [pause_apply]
  split
  · exact .refused rfl (.inl ‹_›)
  · split
    · exact .refused rfl (.inr ‹_›)
    · rename_i hcap
      split
      · rename_i hwait
        rw [← Prod.eta (checkClock _), checkClock_snd]
        exact .shown rfl (by omega) fun h => absurd hwait.1 (by simp [h])
      · exact .shown rfl (by omega) fun _ => rfl

theorem played (stroke : Stroke) (s : Session) : Played stroke s (stroke.play s) := by
  cases stroke with
  | set index on =>
    have h : (Stroke.set index on).play s =
        (.ok (), { s with channels := (Stroke.set index on).change s.channels }) := by
      change (Except.ok (), s.setChannel index on) = _
      by_cases hindex : 0 ≤ index.toInt <;> simp [setChannel, Stroke.change, hindex]
    exact h ▸ .changed rfl
  | fill on => exact .changed rfl
  | paint plan => exact .changed rfl
  | pause ms => exact played_pause ms s

theorem Played.baseDelay {stroke : Stroke} {s : Session} {r : Except Abort Unit × Session} (h : Played stroke s r) :
    r.2.baseDelay = s.baseDelay := by
  cases h <;> rfl

/-! ### One after another -/

/-- Two computations go on alike if they do on the session that a computation leaves. -/
theorem bind_congr {α β : Type} {p q : Play α} {f g : α → Play β} {s : Session} (h : p s = q s)
    (hfg : ∀ a, f a (q s).2 = g a (q s).2) : (p >>= f) s = (q >>= g) s := by
  rw [bind_apply, bind_apply, h]
  cases hq : q s with
  | mk result s' =>
    cases result with
    | ok a => simpa [hq] using hfg a
    | error e => rfl

theorem baseDelay_forM (strokes : List Stroke) (s : Session) :
    (forM strokes Stroke.play s).2.baseDelay = s.baseDelay := by
  induction strokes generalizing s with
  | nil => rfl
  | cons stroke rest ih =>
    have hstroke := (played stroke s).baseDelay
    rw [List.forM_cons, bind_apply]
    cases hplay : stroke.play s with
    | mk result s' =>
      rw [hplay] at hstroke
      cases result with
      | ok a => exact (ih s').trans hstroke
      | error e => exact hstroke

end Session

/-! ### Requests -/

namespace Request

/-- The plans that a random sequence shows one after another, as long as there are candidates. -/
def plans (on : Bool) : (left : Nat) → (plan : Channels) → (candidates : List Nat) → List Channels
  | 0, _, _ => []
  | left + 1, plan, candidates =>
    match Session.firstOpen on plan candidates with
    | none => []
    | some (c, rest) => plan.set c on :: plans on left (plan.set c on) rest

def waveStrokes (total : Nat) (ms : Int64) (on : Bool) (i : Nat) : List Stroke :=
  let (a, b) := Session.wavePair total i
  [.set (Int64.ofInt a) on, .set (Int64.ofInt b) on, .pause ms]

def planStrokes (ms : Int64) (plan : Channels) : List Stroke := [.paint plan, .pause ms]

/-- The strokes of a request to a strip of so many channels, whose sequences pause for some milliseconds. -/
def strokes (total : Nat) (ms : Int64) : Request → List Stroke
  | set index on => [.set index on]
  | fill on => [.fill on]
  | pause delay => [.pause delay]
  | wave on reverse => (Session.waveSteps total reverse).flatMap (waveStrokes total ms on)
  | scatter on candidates =>
    (plans on total (Array.replicate total (!on)) candidates).flatMap (planStrokes ms)

/-- The request does not run out of candidates. -/
def served (total : Nat) : Request → Bool
  | scatter on candidates => (plans on total (Array.replicate total (!on)) candidates).length == total
  | _ => true

end Request

namespace Session

theorem baseMillis_setChannel (index : Int64) (on : Bool) (s : Session) :
    (s.setChannel index on).baseMillis = s.baseMillis := by
  unfold setChannel
  split <;> rfl

theorem waveStep_eq (total : Nat) (on : Bool) (i : Nat) (s : Session) :
    waveStep total on i s = forM (Request.waveStrokes total s.baseMillis on i) Stroke.play s := by
  unfold waveStep Request.waveStrokes
  generalize wavePair total i = pair
  obtain ⟨a, b⟩ := pair
  simp only [List.forM_cons, List.forM_nil, bind_pure_unit, Stroke.play, modify_apply, get_apply,
    baseMillis_setChannel]

theorem waveThrough_eq (total : Nat) (on : Bool) (steps : List Nat) (s : Session) :
    waveThrough total on steps s = forM (steps.flatMap (Request.waveStrokes total s.baseMillis on)) Stroke.play s := by
  induction steps generalizing s with
  | nil => rfl
  | cons i rest ih =>
    rw [waveThrough, List.flatMap_cons, List.forM_append]
    -- The pauses of the other steps take as long: no stroke changes the base delay.
    refine bind_congr (waveStep_eq total on i s) fun _ => ?_
    rw [ih, baseMillis, baseDelay_forM, baseMillis]

theorem scatterOn_eq (on : Bool) (left : Nat) (plan : Channels) (candidates : List Nat) (s : Session) :
    scatterOn on left plan candidates s =
      (do
        forM ((Request.plans on left plan candidates).flatMap (Request.planStrokes s.baseMillis)) Stroke.play
        if (Request.plans on left plan candidates).length = left then pure ()
        else throw .noCandidate : Play Unit) s := by
  induction left generalizing plan candidates s with
  | zero => rfl
  | succ left ih =>
    unfold scatterOn Request.plans
    cases firstOpen on plan candidates with
    | none => rfl
    | some found =>
      obtain ⟨c, rest⟩ := found
      simp only [Request.planStrokes, List.flatMap_cons, List.cons_append, List.nil_append, List.forM_cons, Stroke.play,
        bind_assoc, modify_apply, get_apply, List.length_cons, Nat.add_right_cancel_iff]
      refine bind_congr rfl fun _ => ?_
      rw [ih, baseMillis, (played_pause _ _).baseDelay]
      rfl

/-- A request is carried out by its strokes, and fails behind them if it runs out of candidates. -/
theorem perform_eq (r : Request) (s : Session) :
    perform r s =
      (do
        forM (r.strokes s.channels.size s.baseMillis) Stroke.play
        if r.served s.channels.size then pure () else throw .noCandidate : Play Unit) s := by
  cases r with
  | set index on => rfl
  | fill on => rfl
  | pause ms =>
    simp only [Request.strokes, List.forM_cons, List.forM_nil, bind_pure_unit, Request.served, if_true, bind_pure_unit]
    rfl
  | wave on reverse =>
    simp only [Request.served, if_true, bind_pure_unit]
    exact waveThrough_eq s.channels.size on _ s
  | scatter on candidates =>
    simp only [Request.served, beq_iff_eq]
    exact scatterOn_eq on s.channels.size _ candidates s

end Session

end RunningLights.Script
