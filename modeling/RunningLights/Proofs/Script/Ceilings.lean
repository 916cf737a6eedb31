import RunningLights.Proofs.Script.Display

/-!
# The ceiling on frames

A pause is counted and its frame recorded, or it is refused and nothing happens.  Two things refuse it: someone wants
the run to stop, or as many pauses were admitted as there may be.

* `Session.Paused` — all that a pause can do, with the reason if it is refused;
* `Session.Tallied` — as many frames are recorded as pauses were admitted, and no more than there may be;
* `Session.shows_ofEvents` — so it is in every run, as the session that it leaves shows some display;
* `Keeps` — what a computation keeps of the session, and how it can be aborted;
* `Guarded.events` — a run that is refused for the ceiling has reached it;
* `Unhindered.calls` — a run of calls in fast mode that nobody stops is refused for nothing else.
-/

namespace RunningLights.Script

namespace Session

/-! ### Pauses -/

/-- All that a pause can do.  The time that an admitted pause takes may abort the run, but only in real time. -/
inductive Paused (ms : Int64) (s : Session) : Except Abort Unit × Session → Prop
  | stopped (h : s.stopRequested) : Paused ms s (.error .stopped, s)
  | full (h : s.frameCap ≤ s.pauses) : Paused ms s (.error (.frameLimit s.frameCap), s)
  | shown {result : Except Abort Unit} {elapsed : Duration} (hcap : s.pauses < s.frameCap)
      (hresult : result = .ok () ∨ result = .error (.timeout s.wallClock))
      (hfast : s.realtime = false → result = .ok ()) :
      Paused ms s (result, { s with
        pauses := s.pauses + 1
        recorder := s.recorder.capture s.channels (.ofMillis ms.toInt.toNat) none
        elapsed })

theorem checkClock_fst (s : Session) :
    (checkClock s).1 = .ok () ∨ (checkClock s).1 = .error (.timeout s.wallClock) := by
  rw [checkClock, get_apply]
  split
  · exact .inr rfl
  · exact .inl rfl

theorem paused (ms : Int64) (s : Session) : Paused ms s (pause ms s) := by
  rw [pause_apply]
  split
  · exact .stopped ‹_›
  · split
    · exact .full ‹_›
    · rename_i hcap
      split
      · rename_i hwait
        rw [← Prod.eta (checkClock _), checkClock_snd]
        exact .shown (by omega) (checkClock_fst _) fun h => absurd hwait.1 (by simp [h])
      · exact .shown (by omega) (.inl rfl) fun _ => rfl

/-! ### Tallies -/

/-- The two counters of frames agree, and neither is beyond the ceiling. -/
structure Tallied (s : Session) : Prop where
  frames : s.recorder.frames.size = s.pauses
  cap : s.recorder.cap = s.frameCap
  pauses_le : s.pauses ≤ s.frameCap

/-- The recorder has room for the frame of every pause that is admitted. -/
theorem Tallied.capture {s : Session} (h : s.Tallied) (hcap : s.pauses < s.frameCap) (delay : Duration) :
    s.recorder.capture s.channels delay none = { s.recorder with
      frames := s.recorder.frames.push ⟨s.recorder.idOf (s.pauses + 1), s.channels, delay, none⟩ } := by
  have hroom : s.recorder.frames.size < s.recorder.cap := by
    rw [h.frames, h.cap]
    exact hcap
  rw [Recorder.capture_of_lt _ _ _ _ hroom, h.frames]

theorem Shows.tallied {total cap : Nat} {baseDelay : Duration} {s : Session} {d : Display}
    (h : s.Shows total cap baseDelay d) : s.Tallied where
  frames := h.size_frames.trans h.pauses.symm
  cap := h.recorderCap.trans h.frameCap.symm
  pauses_le := by
    rw [h.pauses, h.frameCap]
    exact h.shots_le

/-- The session that events leave, up to the first that is refused. -/
def ofEvents (total : Nat) (baseDelay : Duration) (limits : ScriptLimits) (fast stopped : Bool)
    (events : List Event) : Session :=
  ((forM events Event.play : Play Unit) (.start total baseDelay limits fast stopped)).2

/-- Whatever happens in a run, the session that it leaves shows some display. -/
theorem shows_ofEvents (total : Nat) (baseDelay : Duration) (limits : ScriptLimits) (fast stopped : Bool)
    (events : List Event) :
    ∃ d, (ofEvents total baseDelay limits fast stopped events).Shows total limits.frameCap baseDelay d := by
  obtain ⟨d, hd, -⟩ := Mirrors.events events _ _ (.start total baseDelay limits fast stopped)
  exact ⟨d, hd⟩

end Session

/-! ### Refusals -/

/-- On a session with the property a computation keeps it, or it is aborted with a reason that fits the session that it
leaves. -/
def Keeps (inv : Session → Prop) (fits : Abort → Session → Prop) (p : Play Unit) : Prop :=
  ∀ s, inv s → ((p s).1 = .ok () → inv (p s).2) ∧ ∀ a, (p s).1 = .error a → fits a (p s).2

namespace Keeps

variable {inv : Session → Prop} {fits : Abort → Session → Prop}

theorem done : Keeps inv fits (pure ()) := fun _ h => ⟨fun _ => h, nofun⟩

theorem bind {p : Play Unit} {q : Unit → Play Unit} (hp : Keeps inv fits p) (hq : Keeps inv fits (q ())) :
    Keeps inv fits (p >>= q) := by
  intro s h
  have hfirst := hp s h
  rw [bind_apply]
  cases hrun : p s with
  | mk result s' =>
    rw [hrun] at hfirst
    cases result with
    | ok _ => exact hq s' (hfirst.1 rfl)
    | error a => exact ⟨nofun, hfirst.2⟩

theorem composes : Composes fun p (_ : Unit → Unit) => Keeps inv fits p := ⟨done, bind⟩

theorem steps {α : Type} {play : α → Play Unit} {todo : List α} (h : ∀ step ∈ todo, Keeps inv fits (play step)) :
    Keeps inv fits (forM todo play) :=
  @Composes.steps Unit _ composes α play (fun d _ => d) todo h

end Keeps

/-- What is refused for the ceiling leaves a session that has reached it. -/
def Session.FitsCeiling (a : Abort) (s : Session) : Prop :=
  ∀ cap, a = .frameLimit cap → cap = s.frameCap ∧ s.frameCap ≤ s.pauses

/-- Nothing is refused for the ceiling below it. -/
abbrev Guarded : Play Unit → Prop := Keeps (fun _ => True) Session.FitsCeiling

namespace Guarded

theorem of_ne {p : Play Unit} (h : ∀ s cap, (p s).1 ≠ .error (.frameLimit cap)) : Guarded p := by
  refine fun s _ => ⟨fun _ => trivial, ?_⟩
  rintro _ hrefused cap rfl
  exact absurd hrefused (h s cap)

theorem stroke (stroke : Stroke) : Guarded stroke.play := by
  cases stroke with
  | set index on => exact of_ne nofun
  | fill on => exact of_ne nofun
  | paint plan => exact of_ne nofun
  | pause ms =>
    intro s _
    have hpaused : s.Paused ms ((Stroke.pause ms).play s) := s.paused ms
    generalize (Stroke.pause ms).play s = r at hpaused ⊢
    refine ⟨fun _ => trivial, ?_⟩
    rintro _ h cap rfl
    cases hpaused with
    | stopped hstop => cases h
    | full hfull =>
      cases h
      exact ⟨rfl, hfull⟩
    | shown hcap hresult hfast => rcases hresult with rfl | rfl <;> cases h

theorem operation : Guarded Session.operation := by
  refine of_ne fun s cap => ?_
  rw [Session.operation, Session.modify_apply, Session.get_apply]
  intro h
  split at h
  · split at h
    · cases h
    · rcases Session.checkClock_fst _ with hclock | hclock <;> rw [hclock] at h <;> cases h
  · cases h

theorem event (event : Event) : Guarded event.play := by
  cases event with
  | operation => exact operation
  | stop => exact of_ne nofun
  | call r =>
    intro s
    have hend (served : Bool) : Guarded (if served then pure () else throw .noCandidate) := by
      cases served <;> exact of_ne nofun
    rw [Event.play, Session.perform_eq]
    exact Keeps.bind (q := fun _ => if r.served s.channels.size then pure () else throw .noCandidate)
      (.steps fun step _ => stroke step) (hend _) s

theorem events (events : List Event) : Guarded (forM events Event.play) := .steps fun step _ => event step

end Guarded

/-! ### Runs that only the ceiling can stop -/

/-- Pauses take no time, nobody wants the run to stop, and there are so many channels. -/
structure Session.FreeOn (total : Nat) (s : Session) : Prop extends s.Free where
  size : s.channels.size = total

/-- Nothing but the ceiling refuses the computation. -/
abbrev Unhindered (total : Nat) : Play Unit → Prop :=
  Keeps (Session.FreeOn total) fun a _ => ∃ cap, a = .frameLimit cap

namespace Unhindered

variable {total : Nat}

theorem change {stroke : Stroke} (hfits : stroke.Fits total) (hdelay : stroke.delay? = none) :
    Unhindered total stroke.play := by
  intro s h
  have hplayed := s.played stroke
  generalize stroke.play s = r at hplayed ⊢
  cases hplayed with
  | changed => exact ⟨fun _ => { h with size := stroke.size_change hfits h.size }, nofun⟩
  | refused hpause => cases hdelay.symm.trans hpause
  | shown hpause => cases hdelay.symm.trans hpause

theorem pause (ms : Int64) : Unhindered total (Stroke.pause ms).play := by
  intro s h
  have hpaused : s.Paused ms ((Stroke.pause ms).play s) := s.paused ms
  generalize (Stroke.pause ms).play s = r at hpaused ⊢
  cases hpaused with
  | stopped hstop => exact absurd (hstop.symm.trans h.unstopped) nofun
  | full hfull => exact ⟨nofun, fun a ha => ⟨_, (Except.error.inj ha).symm⟩⟩
  | shown hcap hresult hfast =>
    cases hfast h.fast
    exact ⟨fun _ => { h with }, nofun⟩

theorem stroke {stroke : Stroke} (hfits : stroke.Fits total) : Unhindered total stroke.play := by
  cases stroke with
  | set index on => exact change hfits rfl
  | fill on => exact change hfits rfl
  | paint plan => exact change hfits rfl
  | pause ms => exact pause ms

/-- A request that does not run out of candidates is refused for the ceiling only. -/
theorem call {r : Request} (hserved : r.served total) : Unhindered total (Event.call r).play := by
  intro s h
  rw [Event.play, Session.perform_eq, h.size]
  simp only [hserved, if_true, bind_pure_unit]
  exact Keeps.steps (fun step hstep => stroke (Request.fits_strokes hstep)) s h

theorem calls {events : List Event} (h : ∀ event ∈ events, ∃ r, event = .call r ∧ r.served total) :
    Unhindered total (forM events Event.play) := by
  refine .steps fun event hevent => ?_
  obtain ⟨r, rfl, hserved⟩ := h event hevent
  exact call hserved

end Unhindered

end RunningLights.Script
