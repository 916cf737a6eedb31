import Mathlib
import RunningLights.Proofs.Script.Trace

/-!
# What a run shows

The frames of a run can be told from the calls of the script alone, without the counters that bound it:

* `Display` — the channels, and the shots that pauses have taken of them;
* `Session.Shows` — the session has the channels and the shots of a display, and both its counters agree with that;
* `Mirrors` — what a computation does to the session is done to the display as well;
* `Executor.frames_of_calls` — the frames of every run that ends without an error, and when there are none;
* `Executor.no_frames_of_unpaused` — a script that is not recorded as it leaves the channels.
-/

namespace RunningLights.Script

/-- The channels as they are shown, and how long they are. -/
structure Shot where
  channels : Channels
  delay : Duration
  deriving DecidableEq

/-- The frames of shots, numbered from one. -/
def Shot.frames (shots : List Shot) : List Frame :=
  shots.mapIdx fun k shot => ⟨s!"script-frame-{k + 1}", shot.channels, shot.delay, none⟩

/-- What can be seen of a run: the channels, and the shots that were taken of them. -/
structure Display where
  channels : Channels
  shots : List Shot
  deriving DecidableEq

namespace Display

def blank (total : Nat) : Display := ⟨.blank total, []⟩

/-- The display after a stroke: a pause takes a shot, the others change the channels. -/
def after (d : Display) (stroke : Stroke) : Display :=
  match stroke.delay? with
  | some delay => { d with shots := d.shots ++ [⟨d.channels, delay⟩] }
  | none => { d with channels := stroke.change d.channels }

/-- The display after an event.  Sequences pause for the base delay. -/
def react (total : Nat) (baseDelay : Duration) (d : Display) : Event → Display
  | .call r => (r.strokes total (Int64.ofNat baseDelay.wholeMillis)).foldl after d
  | _ => d

/-- The frames of a run that leaves the display so and ends without an error: the shots, or the channels as they are
left if there are none.  Nothing is recorded beyond the cap. -/
def frames (cap : Nat) (baseDelay : Duration) (d : Display) : List Frame :=
  if d.shots = [] then
    if cap = 0 then [] else [⟨"script-frame-1", d.channels, baseDelay, some Session.finalLabel⟩]
  else Shot.frames d.shots

theorem after_of_delay {d : Display} {stroke : Stroke} {delay : Duration} (h : stroke.delay? = some delay) :
    d.after stroke = { d with shots := d.shots ++ [⟨d.channels, delay⟩] } := by
  rw [after, h]

theorem after_of_change {d : Display} {stroke : Stroke} (h : stroke.delay? = none) :
    d.after stroke = { d with channels := stroke.change d.channels } := by
  rw [after, h]

/-- All that can be seen has so many channels. -/
structure Wide (total : Nat) (d : Display) : Prop where
  channels : d.channels.size = total
  shots : ∀ shot ∈ d.shots, shot.channels.size = total

end Display

/-! ### Widths -/

/-- The stroke does not change the number of channels. -/
def Stroke.Fits (total : Nat) : Stroke → Prop
  | paint plan => plan.size = total
  | _ => True

theorem Stroke.size_change {total : Nat} {stroke : Stroke} (hfits : stroke.Fits total) {channels : Channels}
    (h : channels.size = total) : (stroke.change channels).size = total := by
  cases stroke with
  | set index on =>
    simp only [Stroke.change]
    split
    · exact (channels.size_set _ on).trans h
    · exact h
  | fill on => exact (channels.size_fill on).trans h
  | paint plan => exact hfits
  | pause ms => exact h

theorem Display.Wide.after {total : Nat} {d : Display} (h : d.Wide total) {stroke : Stroke}
    (hfits : stroke.Fits total) : (d.after stroke).Wide total := by
  unfold Display.after
  split
  · refine ⟨h.channels, fun shot hshot => ?_⟩
    rcases List.mem_append.1 hshot with hshot | hshot
    · exact h.shots shot hshot
    · exact List.mem_singleton.1 hshot ▸ h.channels
  · exact ⟨stroke.size_change hfits h.channels, h.shots⟩

theorem Request.size_of_mem_plans {on : Bool} {left : Nat} {plan shown : Channels} {candidates : List Nat}
    (h : shown ∈ plans on left plan candidates) : shown.size = plan.size := by
  induction left generalizing plan candidates with
  | zero => cases h
  | succ left ih =>
    unfold plans at h
    split at h
    · cases h
    · rcases List.mem_cons.1 h with rfl | h
      · exact plan.size_set _ on
      · exact (ih h).trans (plan.size_set _ on)

theorem Request.fits_strokes {total : Nat} {ms : Int64} {r : Request} {stroke : Stroke}
    (h : stroke ∈ r.strokes total ms) : stroke.Fits total := by
  cases r with
  | set index on => exact List.mem_singleton.1 h ▸ trivial
  | fill on => exact List.mem_singleton.1 h ▸ trivial
  | pause delay => exact List.mem_singleton.1 h ▸ trivial
  | wave on reverse =>
    obtain ⟨i, -, h⟩ := List.mem_flatMap.1 h
    simp only [waveStrokes, List.mem_cons, List.not_mem_nil, or_false] at h
    rcases h with rfl | rfl | rfl <;> trivial
  | scatter on candidates =>
    obtain ⟨plan, hplan, h⟩ := List.mem_flatMap.1 h
    simp only [planStrokes, List.mem_cons, List.not_mem_nil, or_false] at h
    rcases h with rfl | rfl
    · exact (size_of_mem_plans hplan).trans Array.size_replicate
    · trivial

/-! ### Shots -/

namespace Shot

theorem length_frames (shots : List Shot) : (frames shots).length = shots.length := List.length_mapIdx

theorem frames_concat (shots : List Shot) (shot : Shot) :
    frames (shots ++ [shot]) =
      frames shots ++ [⟨s!"script-frame-{shots.length + 1}", shot.channels, shot.delay, none⟩] :=
  List.mapIdx_concat

end Shot

/-! ### The display of a session -/

/-- The session has the channels and the shots of a display.  The pauses that were admitted and the frames that were
recorded are as many, so neither counter is ahead of the other. -/
structure Session.Shows (total cap : Nat) (baseDelay : Duration) (s : Session) (d : Display) : Prop where
  wide : d.Wide total
  channels : s.channels = d.channels
  frames : s.recorder.frames.toList = Shot.frames d.shots
  stem : s.recorder.stem = "script"
  recorderCap : s.recorder.cap = cap
  frameCap : s.frameCap = cap
  pauses : s.pauses = d.shots.length
  shots_le : d.shots.length ≤ cap
  baseDelay : s.baseDelay = baseDelay

namespace Session.Shows

variable {total cap : Nat} {baseDelay : Duration} {s : Session} {d : Display}

theorem start (total : Nat) (baseDelay : Duration) (limits : ScriptLimits) (fast stopped : Bool) :
    (Session.start total baseDelay limits fast stopped).Shows total limits.frameCap baseDelay (.blank total) where
  wide := ⟨Channels.size_blank total, nofun⟩
  channels := rfl
  frames := rfl
  stem := rfl
  recorderCap := rfl
  frameCap := rfl
  pauses := rfl
  shots_le := Nat.zero_le _
  baseDelay := rfl

theorem size_frames (h : s.Shows total cap baseDelay d) : s.recorder.frames.size = d.shots.length := by
  rw [← Array.length_toList, h.frames, Shot.length_frames]

/-- The recorder has room as long as the other counter lets pauses through. -/
theorem capture (h : s.Shows total cap baseDelay d) (hcap : s.pauses < s.frameCap) (delay : Duration)
    (label : Option String) :
    s.recorder.capture s.channels delay label = { s.recorder with
      frames := s.recorder.frames.push ⟨s!"script-frame-{d.shots.length + 1}", d.channels, delay, label⟩ } := by
  have hroom : s.recorder.frames.size < s.recorder.cap := by
    rw [h.size_frames, h.recorderCap, ← h.pauses, ← h.frameCap]
    exact hcap
  have hid : s.recorder.idOf (s.recorder.frames.size + 1) = s!"script-frame-{d.shots.length + 1}" := by
    rw [Recorder.idOf, h.size_frames, h.stem]
    rfl
  rw [Recorder.capture_of_lt _ _ _ _ hroom, hid, h.channels]

theorem played {stroke : Stroke} {r : Except Abort Unit × Session} (h : s.Shows total cap baseDelay d)
    (hfits : stroke.Fits total) (hplayed : s.Played stroke r) :
    ∃ d', r.2.Shows total cap baseDelay d' ∧ (r.1 = .ok () → d' = d.after stroke) := by
  have hwide := h.wide.after hfits
  cases hplayed with
  | changed hdelay =>
    refine ⟨d.after stroke, ?_, fun _ => rfl⟩
    rw [Display.after_of_change hdelay] at hwide ⊢
    exact { h with wide := hwide, channels := congrArg stroke.change h.channels }
  | refused hdelay hrefused => exact ⟨d, h, nofun⟩
  -- Even if the time that the pause takes aborts the run, its shot is recorded.
  | @shown delay result elapsed hdelay hcap hresult =>
    refine ⟨d.after stroke, ?_, fun _ => rfl⟩
    rw [Display.after_of_delay hdelay] at hwide ⊢
    rw [h.capture hcap]
    exact { h with
      wide := hwide
      frames := by rw [Array.toList_push, h.frames, Shot.frames_concat]
      pauses := by rw [List.length_append, h.pauses]; rfl
      shots_le := by
        have := h.pauses
        have := h.frameCap
        simp only [List.length_append, List.length_singleton]
        omega }

theorem play_call (h : s.Shows total cap baseDelay d) (r : Request) :
    (Event.call r).play s = (do
      forM (r.strokes total (Int64.ofNat baseDelay.wholeMillis)) Stroke.play
      if r.served total then pure () else throw .noCandidate : Play Unit) s := by
  rw [Event.play, Session.perform_eq, Session.baseMillis, h.baseDelay, h.channels, h.wide.channels]

end Session.Shows

/-! ### Runs -/

theorem Session.operation_snd (s : Session) :
    ∃ operations elapsed, (operation s).2 = { s with operations, elapsed } := by
  refine ⟨s.operations + 1, s.elapsed + operationTime, ?_⟩
  rw [operation, modify_apply, get_apply]
  split
  · split
    · rfl
    · exact checkClock_snd _
  · rfl

/-- A relation between computations and what they do to a view of the session, which is kept by doing one after
another. -/
structure Composes {View : Type} (R : Play Unit → (View → View) → Prop) : Prop where
  done : R (pure ()) id
  bind {p : Play Unit} {q : Unit → Play Unit} {f g : View → View} : R p f → R (q ()) g → R (p >>= q) (g ∘ f)

namespace Composes

/-- The run lemma: what holds of steps one by one holds of them one after another. -/
theorem steps {View : Type} {R : Play Unit → (View → View) → Prop} (hR : Composes R) {α : Type} {play : α → Play Unit}
    {react : View → α → View} {todo : List α} (h : ∀ step ∈ todo, R (play step) (react · step)) :
    R (forM todo play) (fun d => todo.foldl react d) := by
  induction todo with
  | nil => exact hR.done
  | cons step rest ih =>
    rw [List.forM_cons]
    have hrest := ih fun other hother => h other (List.mem_cons_of_mem _ hother)
    exact hR.bind (q := fun _ => forM rest play) (h step List.mem_cons_self) hrest

theorem strokes {R : Play Unit → (Display → Display) → Prop} (hR : Composes R) {total : Nat}
    (h : ∀ {stroke : Stroke}, stroke.Fits total → R stroke.play (·.after stroke)) (r : Request) (ms : Int64) :
    R (forM (r.strokes total ms) Stroke.play) (fun d => (r.strokes total ms).foldl Display.after d) :=
  hR.steps fun _ hstroke => h (Request.fits_strokes hstroke)

end Composes

/-- What a computation does to the session is done to the display, unless it is aborted. -/
def Mirrors (total cap : Nat) (baseDelay : Duration) (p : Play Unit) (f : Display → Display) : Prop :=
  ∀ s d, s.Shows total cap baseDelay d →
    ∃ d', (p s).2.Shows total cap baseDelay d' ∧ ((p s).1 = .ok () → d' = f d)

namespace Mirrors

variable {total cap : Nat} {baseDelay : Duration}

theorem done : Mirrors total cap baseDelay (pure ()) id := fun _ d h => ⟨d, h, fun _ => rfl⟩

theorem refused (a : Abort) (f : Display → Display) : Mirrors total cap baseDelay (throw a) f :=
  fun _ d h => ⟨d, h, nofun⟩

theorem bind {p : Play Unit} {q : Unit → Play Unit} {f g : Display → Display} (hp : Mirrors total cap baseDelay p f)
    (hq : Mirrors total cap baseDelay (q ()) g) : Mirrors total cap baseDelay (p >>= q) (g ∘ f) := by
  intro s d h
  obtain ⟨d', hd', hf⟩ := hp s d h
  rw [bind_apply]
  cases hrun : p s with
  | mk result s' =>
    rw [hrun] at hd' hf
    cases result with
    | ok _ =>
      cases hf rfl
      exact hq s' _ hd'
    | error a => exact ⟨d', hd', nofun⟩

theorem composes : Composes (Mirrors total cap baseDelay) := ⟨done, bind⟩

theorem stroke {stroke : Stroke} (hfits : stroke.Fits total) :
    Mirrors total cap baseDelay stroke.play (·.after stroke) :=
  fun s _ h => h.played hfits (s.played stroke)

theorem event (event : Event) : Mirrors total cap baseDelay event.play (·.react total baseDelay event) := by
  intro s d h
  cases event with
  | operation =>
    obtain ⟨operations, elapsed, hs⟩ := s.operation_snd
    exact ⟨d, hs ▸ { h with }, fun _ => rfl⟩
  | stop => exact ⟨d, { h with }, fun _ => rfl⟩
  | call r =>
    have hend : Mirrors total cap baseDelay (if r.served total then pure () else throw .noCandidate) id := by
      split
      · exact done
      · exact refused _ _
    rw [h.play_call r]
    exact bind (q := fun _ => if r.served total then pure () else throw .noCandidate) (composes.strokes stroke r _) hend s d h

theorem events (events : List Event) :
    Mirrors total cap baseDelay (forM events Event.play) (fun d => events.foldl (Display.react total baseDelay) d) :=
  composes.steps fun event _ => Mirrors.event event

end Mirrors

/-! ### Runs that nothing can stop -/

/-- Pauses take no time, and nobody wants the run to stop. -/
structure Session.Free (s : Session) : Prop where
  fast : s.realtime = false
  unstopped : s.stopRequested = false

/-- A computation that is mirrored and is not aborted on a free session unless it takes more shots than there may be. -/
structure Passes (total cap : Nat) (baseDelay : Duration) (p : Play Unit) (f : Display → Display) : Prop where
  mirrors : Mirrors total cap baseDelay p f
  grows : ∀ d, d.shots.length ≤ (f d).shots.length
  ok : ∀ s d, s.Shows total cap baseDelay d → s.Free → (f d).shots.length ≤ cap → (p s).1 = .ok () ∧ (p s).2.Free

namespace Passes

variable {total cap : Nat} {baseDelay : Duration}

theorem done : Passes total cap baseDelay (pure ()) id where
  mirrors := .done
  grows _ := Nat.le_refl _
  ok _ _ _ hfree _ := ⟨rfl, hfree⟩

theorem bind {p : Play Unit} {q : Unit → Play Unit} {f g : Display → Display} (hp : Passes total cap baseDelay p f)
    (hq : Passes total cap baseDelay (q ()) g) : Passes total cap baseDelay (p >>= q) (g ∘ f) where
  mirrors := hp.mirrors.bind hq.mirrors
  grows d := Nat.le_trans (hp.grows d) (hq.grows (f d))
  ok s d h hfree hroom := by
    obtain ⟨hok, hfree'⟩ := hp.ok s d h hfree (Nat.le_trans (hq.grows (f d)) hroom)
    obtain ⟨d', hd', hf⟩ := hp.mirrors s d h
    rw [bind_apply]
    cases hrun : p s with
    | mk result s' =>
      rw [hrun] at hok hfree' hd' hf
      cases hok
      cases hf rfl
      exact hq.ok s' _ hd' hfree' hroom

theorem composes : Composes (Passes total cap baseDelay) := ⟨done, bind⟩

theorem stroke {stroke : Stroke} (hfits : stroke.Fits total) :
    Passes total cap baseDelay stroke.play (·.after stroke) where
  mirrors := .stroke hfits
  grows d := by
    unfold Display.after
    split
    · simp
    · exact Nat.le_refl _
  ok s d h hfree hroom := by
    have hplayed := s.played stroke
    generalize stroke.play s = r at hplayed ⊢
    cases hplayed with
    | changed hdelay => exact ⟨rfl, ⟨hfree.fast, hfree.unstopped⟩⟩
    | refused hdelay hrefused =>
      -- Neither reason to refuse a pause holds.
      rw [Display.after_of_delay hdelay, List.length_append, ← h.pauses, ← h.frameCap] at hroom
      rcases hrefused with hstop | hcap
      · exact absurd hstop (by simp [hfree.unstopped])
      · exact absurd hroom (by simp only [List.length_singleton]; omega)
    | shown hdelay hcap hresult => exact ⟨hresult hfree.fast, ⟨hfree.fast, hfree.unstopped⟩⟩

/-- A request that does not run out of candidates passes. -/
theorem call {r : Request} (hserved : r.served total) :
    Passes total cap baseDelay (Event.call r).play (·.react total baseDelay (.call r)) where
  mirrors := .event (.call r)
  grows d := (composes.strokes stroke r _ : Passes total cap baseDelay _ _).grows d
  ok s d h hfree hroom := by
    rw [h.play_call r]
    simp only [hserved, if_true, bind_pure_unit]
    exact (composes.strokes stroke r _).ok s d h hfree hroom

theorem calls {events : List Event} (h : ∀ event ∈ events, ∃ r, event = .call r ∧ r.served total) :
    Passes total cap baseDelay (forM events Event.play) (fun d => events.foldl (Display.react total baseDelay) d) := by
  refine composes.steps fun event hevent => ?_
  obtain ⟨r, rfl, hserved⟩ := h event hevent
  exact call hserved

end Passes

/-! ### The frames of a run -/

def Display.ofEvents (total : Nat) (baseDelay : Duration) (events : List Event) : Display :=
  events.foldl (Display.react total baseDelay) (.blank total)

/-- After events of which none was refused, the session shows their display. -/
theorem Session.Shows.of_run {total cap : Nat} {baseDelay : Duration} {s s' : Session}
    (h : s.Shows total cap baseDelay (.blank total)) {events : List Event}
    (hrun : forM events Event.play s = (.ok (), s')) :
    s'.Shows total cap baseDelay (.ofEvents total baseDelay events) := by
  obtain ⟨d, hd, hf⟩ := Mirrors.events events _ _ h
  rw [hrun] at hd hf
  have hlast : d = .ofEvents total baseDelay events := hf rfl
  exact hlast ▸ hd

theorem Session.Shows.frames_recordFinal {total cap : Nat} {baseDelay : Duration} {s : Session} {d : Display}
    (h : s.Shows total cap baseDelay d) : s.recordFinal.recorder.frames.toList = d.frames cap baseDelay := by
  have hempty : s.recorder.frames.isEmpty ↔ d.shots = [] := by
    rw [Array.isEmpty_iff_size_eq_zero, h.size_frames, List.length_eq_zero_iff]
  unfold recordFinal Display.frames
  by_cases hshots : d.shots = []
  · rw [if_pos (hempty.2 hshots), if_pos hshots]
    have hnone : s.recorder.frames.toList = [] := by rw [h.frames, hshots]; rfl
    have hzero : s.recorder.frames.size = 0 := by rw [h.size_frames, hshots]; rfl
    split
    · rename_i hcap
      rw [Recorder.capture_of_le _ _ _ _ (by rw [h.recorderCap, hcap]; exact Nat.zero_le _)]
      exact hnone
    · rename_i hcap
      have hroom : s.pauses < s.frameCap := by
        rw [h.pauses, h.frameCap, hshots]
        exact Nat.pos_of_ne_zero hcap
      rw [h.capture hroom, Array.toList_push, hnone, h.baseDelay, hshots]
      rfl
  · rw [if_neg (fun hs => hshots (hempty.1 hs)), if_neg hshots]
    exact h.frames

namespace Display

variable {total cap : Nat} {baseDelay : Duration} {d : Display}

theorem length_frames (cap : Nat) (baseDelay : Duration) (d : Display) :
    (d.frames cap baseDelay).length = if d.shots = [] then min 1 cap else d.shots.length := by
  unfold frames
  split
  · split
    · simp [*]
    · simp only [List.length_singleton]
      omega
  · exact Shot.length_frames d.shots

theorem length_frames_le (h : d.shots.length ≤ cap) : (d.frames cap baseDelay).length ≤ max 1 cap := by
  rw [length_frames]
  split <;> omega

theorem frames_eq_nil_iff (h : d.shots.length ≤ cap) : d.frames cap baseDelay = [] ↔ cap = 0 := by
  rw [← List.length_eq_zero_iff, length_frames]
  split
  · omega
  · rename_i hshots
    have := List.length_pos_iff.2 hshots
    omega

theorem frames_get (h : d.Wide total) {k : Nat} {f : Frame} (hf : (d.frames cap baseDelay)[k]? = some f) :
    f.id = s!"script-frame-{k + 1}" ∧ f.channels.size = total := by
  unfold frames at hf
  split at hf
  · split at hf
    · cases hf
    · rw [List.getElem?_singleton] at hf
      split at hf
      · rename_i hk
        cases hf
        exact ⟨hk ▸ rfl, h.channels⟩
      · cases hf
  · unfold Shot.frames at hf
    rw [List.getElem?_mapIdx] at hf
    obtain ⟨shot, hshot, rfl⟩ := Option.map_eq_some_iff.1 hf
    exact ⟨rfl, h.shots shot (List.mem_of_getElem? hshot)⟩

end Display

namespace Session

variable {events : List Event} {ending : Except ScriptError Unit} {s : Session}

/-- A run gives frames exactly if none of its events is refused and the script ends without an error. -/
theorem outcome_follow_eq_ok {frames : List Frame} :
    (outcome (s.follow events ending)).1 = .ok frames ↔
      ∃ s', forM events Event.play s = (.ok (), s') ∧ ending = .ok () ∧
        s'.recordFinal.recorder.frames.toList = frames := by
  cases hrun : (forM events Event.play : Play Unit) s with
  | mk result s' =>
    cases result with
    | error a =>
      rw [follow_of_error hrun]
      exact ⟨nofun, nofun⟩
    | ok _ =>
      rw [follow_of_ok hrun]
      cases ending with
      | ok _ =>
        constructor
        · intro h
          exact ⟨s', rfl, rfl, Except.ok.inj h⟩
        · rintro ⟨_, h, -, rfl⟩
          cases h
          rfl
      | error e => exact ⟨nofun, nofun⟩

/-- The run is aborted at the first event that is refused. -/
theorem outcome_follow_of_refused {before after : List Event} {event : Event} {a : Abort} {s' : Session}
    (hbefore : forM before Event.play s = (.ok (), s')) (hrefused : (event.play s').1 = .error a) :
    (outcome (s.follow (before ++ event :: after) ending)).1 = .error (.aborted a) := by
  have hrun : forM (before ++ event :: after) Event.play s = (.error a, (event.play s').2) := by
    rw [List.forM_append, bind_apply, hbefore]
    simp only [List.forM_cons]
    rw [bind_apply]
    cases h : event.play s' with
    | mk result s'' =>
      rw [h] at hrefused
      cases hrefused
      rfl
  rw [follow_of_error hrun]
  rfl

end Session

namespace Executor

/-- **The frames of a run.** The run of a script is a sequence of events, whatever engine runs it, as long as that stops
at the first event that is refused; in particular this holds of a script that passes validation here.  If a run ends without
an error its frames are those of the display after its events, and there are none of them exactly if none may be
recorded.  If one of the events is refused there are no frames.  In fast mode a run of calls that nobody stops ends
without an error as long as there are no more pauses than frames may be recorded. -/
theorem frames_of_calls (e : Executor) (fast stopped : Bool) (total : Nat) (baseDelay : Duration) :
    let start := Session.start total baseDelay e.limits fast stopped
    (∀ (engine : Engine) q ended, engine.Runs q start ended →
      ∃ events ending, (e.finished stopped ended).1 = (outcome (start.follow events ending)).1) ∧
    (∀ source tree, e.running = false → validate source = .ok tree →
      ∃ events ending, (e.run fast stopped source total baseDelay).1 = (outcome (start.follow events ending)).1) ∧
    ∀ (events : List Event) (ending : Except ScriptError Unit),
      let result := (outcome (start.follow events ending)).1
      let display := Display.ofEvents total baseDelay events
      (∀ frames, result = .ok frames →
        frames = display.frames e.limits.frameCap baseDelay ∧ display.shots.length ≤ e.limits.frameCap ∧
        frames.length ≤ max 1 e.limits.frameCap ∧ (frames = [] ↔ e.limits.frameCap = 0) ∧
        ∀ k f, frames[k]? = some f → f.id = s!"script-frame-{k + 1}" ∧ f.channels.size = total) ∧
      (∀ before event after s a, events = before ++ event :: after →
        forM before Event.play start = (.ok (), s) → (event.play s).1 = .error a → result = .error (.aborted a)) ∧
      (fast = true → stopped = false → ending = .ok () →
        (∀ event ∈ events, ∃ r, event = .call r ∧ r.served total) → display.shots.length ≤ e.limits.frameCap →
        ∃ frames, result = .ok frames) := by
  intro start
  have hstart : start.Shows total e.limits.frameCap baseDelay (.blank total) := .start ..
  refine ⟨?_, ?_, fun events ending => ⟨?_, ?_, ?_⟩⟩
  · intro engine q ended hruns
    obtain ⟨events, ending, rfl, -⟩ := hruns.follows (P := fun _ => True) (fun _ _ _ => trivial) trivial
    exact ⟨events, ending, rfl⟩
  · intro source tree hidle hvalid
    obtain ⟨events, ending, hrun⟩ := runTree_eq_follow tree e.limits.callLevels start
    exact ⟨events, ending, by simp only [run, hidle, hvalid, ← hrun]; rfl⟩
  · intro frames hok
    obtain ⟨s, hrun, -, rfl⟩ := Session.outcome_follow_eq_ok.1 hok
    have hshows : s.Shows total e.limits.frameCap baseDelay (.ofEvents total baseDelay events) :=
      hstart.of_run hrun
    rw [hshows.frames_recordFinal]
    exact ⟨rfl, hshows.shots_le, Display.length_frames_le hshows.shots_le, Display.frames_eq_nil_iff hshows.shots_le,
      fun k f hf => Display.frames_get hshows.wide hf⟩
  · rintro before event after s a rfl hbefore hrefused
    exact Session.outcome_follow_of_refused hbefore hrefused
  · intro hfast hstopped hending hcalls hroom
    have hfree : start.Free := ⟨by simp [start, Session.start, hfast], hstopped⟩
    have hok := ((Passes.calls hcalls).ok _ _ hstart hfree hroom).1
    exact ⟨_, Session.outcome_follow_eq_ok.2 ⟨_, Prod.ext hok rfl, hending, rfl⟩⟩

/-- A random sequence over two channels whose first candidate is drawn twice, with room for just its frames. -/
theorem frames_of_calls_scatter :
    (Request.scatter true [1, 1, 0]).served 2 ∧
      (outcome ((Session.start 2 (.ofMillis 20) { ScriptLimits.standard with frameCap := 2 } true false).follow
        [.call (.scatter true [1, 1, 0])] (.ok ()))).1 =
      .ok [⟨"script-frame-1", #[false, true], .ofMillis 20, none⟩,
        ⟨"script-frame-2", #[true, true], .ofMillis 20, none⟩] := by
  have hserved : (Request.scatter true [1, 1, 0]).served 2 := by decide
  obtain ⟨-, -, hruns⟩ :=
    frames_of_calls (.ofLimits { ScriptLimits.standard with frameCap := 2 }) true false 2 (.ofMillis 20)
  obtain ⟨hframes, -, hok⟩ := hruns [.call (.scatter true [1, 1, 0])] (.ok ())
  obtain ⟨frames, hresult⟩ := hok rfl rfl rfl (by simpa using hserved) (by decide)
  refine ⟨hserved, hresult.trans (congrArg Except.ok ?_)⟩
  rw [(hframes frames hresult).1]
  decide

/-- A script that never pauses ends without an error although it has no frames if none may be recorded. -/
theorem no_frames_of_unpaused :
    ((Executor.ofLimits { ScriptLimits.standard with frameCap := 0 }).generate "on();" 2 (.ofMillis 20)).1 =
      .ok [] := by
  have hpolicy : Policy.violations "on();" = [] := by decide +kernel
  have hblank : "on();".toList.all Text.isBlank = false := by decide
  have hparse : ScriptTree.parse "on();" = .ok ⟨[.term (.call "on" [] ⟨1, 1⟩)], []⟩ := by cbv
  have hvalidate : validate "on();" = .ok ⟨[.term (.call "on" [] ⟨1, 1⟩)], []⟩ := by
    simp only [validate, hblank, hparse, hpolicy]
    rfl
  simp only [generate, run, hvalidate]
  rfl

end Executor

end RunningLights.Script
