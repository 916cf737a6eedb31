import RunningLights.Proofs.Script.Ceilings

/-!
# The statistics of a run

What is known of a run afterwards are the pauses that were admitted, and whether there were as many as there may be.
This is not quite what it gives and whether something was refused:

* `captured` — the frames that a run captures, also those that are dropped as it fails;
* `Executor.run_eq_follow` — the statistics of every run are those of the session that its events leave;
* `Executor.frames_counted` — they count the frames, but not the final state of a run without pauses;
* `Executor.truncation_warned` — they warn of every refused pause, but also of a last one that was admitted.
-/

namespace RunningLights.Script

def truncationWarning : String := "Maximum frame limit reached. Pattern was truncated."

/-- The frames that a run has captured when it ends.  Those of a run that fails are dropped. -/
def captured : Except ScriptError Unit × Session → List Frame
  | (.ok _, s) => s.recordFinal.recorder.frames.toList
  | (.error _, s) => s.recorder.frames.toList

namespace Session

/-! ### The end of a run -/

theorem stats_recordFinal (s : Session) : s.recordFinal.stats = s.stats := by
  unfold recordFinal
  split <;> rfl

theorem mem_warnings_stats {s : Session} : truncationWarning ∈ s.stats.warnings ↔ s.frameCap ≤ s.pauses := by
  simp only [stats, exhausted, decide_eq_true_eq, List.mem_append]
  split <;> split <;> split <;> simp [*, truncationWarning]

theorem snd_follow (events : List Event) (ending : Except ScriptError Unit) (s : Session) :
    (s.follow events ending).2 = ((forM events Event.play : Play Unit) s).2 := by
  unfold follow
  split <;> simp [*]

/-- One of the events is refused since there may be no more frames. -/
def RefusedFrame (events : List Event) (s : Session) : Prop :=
  ∃ cap, ((forM events Event.play : Play Unit) s).1 = .error (.frameLimit cap)

/-- The final state is captured if nothing else was and there is room for it. -/
theorem Tallied.size_recordFinal {s : Session} (h : s.Tallied) :
    s.recordFinal.recorder.frames.size = s.pauses + if s.pauses = 0 ∧ 0 < s.frameCap then 1 else 0 := by
  have hempty : s.recorder.frames.isEmpty ↔ s.pauses = 0 := by
    rw [Array.isEmpty_iff_size_eq_zero, h.frames]
  unfold recordFinal
  split
  · rename_i hnone
    have hzero := hempty.1 hnone
    by_cases hcap : 0 < s.frameCap
    · have hroom : s.recorder.frames.size < s.recorder.cap := by
        rw [h.frames, h.cap]
        omega
      rw [Recorder.capture_of_lt _ _ _ _ hroom, if_pos ⟨hzero, hcap⟩, Array.size_push, h.frames]
    · have hfull : s.recorder.cap ≤ s.recorder.frames.size := by
        rw [h.frames, h.cap]
        omega
      rw [Recorder.capture_of_le _ _ _ _ hfull, if_neg fun hn => hcap hn.2]
      exact h.frames
  · rename_i hsome
    rw [if_neg fun hn => hsome (hempty.2 hn.1)]
    exact h.frames

/-! ### Refusals -/

section Refusals

variable {total : Nat} {baseDelay : Duration} {limits : ScriptLimits} {fast stopped : Bool} {events : List Event}

theorem exists_shows_follow (total : Nat) (baseDelay : Duration) (limits : ScriptLimits) (fast stopped : Bool)
    (events : List Event) (ending : Except ScriptError Unit) :
    ∃ d, ((start total baseDelay limits fast stopped).follow events ending).2.Shows total limits.frameCap baseDelay d :=
  snd_follow events ending (start total baseDelay limits fast stopped) ▸ shows_ofEvents ..

/-- What is refused for the ceiling is refused for that of the run, and it has been reached. -/
theorem RefusedFrame.full (h : (start total baseDelay limits fast stopped).RefusedFrame events)
    (ending : Except ScriptError Unit) :
    ((forM events Event.play : Play Unit) (start total baseDelay limits fast stopped)).1 =
        .error (.frameLimit limits.frameCap) ∧
      limits.frameCap ≤ ((start total baseDelay limits fast stopped).follow events ending).2.pauses := by
  obtain ⟨cap, hcap⟩ := h
  obtain ⟨d, hd⟩ := exists_shows_follow total baseDelay limits fast stopped events ending
  obtain ⟨rfl, hfull⟩ := (Guarded.events events _ trivial).2 _ hcap cap rfl
  rw [← snd_follow events ending, hd.frameCap] at hcap hfull
  exact ⟨hcap, hfull⟩

/-- A run is aborted for the ceiling exactly if something is refused for it. -/
theorem outcome_eq_frameLimit_iff {ending : Except ScriptError Unit} {s : Session} {cap : Nat}
    (hending : ending ≠ .error (.aborted (.frameLimit cap))) :
    (outcome (s.follow events ending)).1 = .error (.aborted (.frameLimit cap)) ↔
      ((forM events Event.play : Play Unit) s).1 = .error (.frameLimit cap) := by
  cases hrun : (forM events Event.play : Play Unit) s with
  | mk result s' =>
    cases result with
    | ok _ =>
      rw [follow_of_ok hrun]
      cases ending with
      | ok _ => exact iff_of_false nofun nofun
      | error e => exact iff_of_false (fun h => hending (congrArg Except.error (Except.error.inj h))) nofun
    | error a =>
      rw [follow_of_error hrun]
      simp [outcome]

/-- Without a refusal every shot of the calls is admitted, and they are not too many. -/
theorem pauses_of_ok
    (h : ((forM events Event.play : Play Unit) (start total baseDelay limits fast stopped)).1 = .ok ())
    (ending : Except ScriptError Unit) :
    ((start total baseDelay limits fast stopped).follow events ending).2.pauses =
        (Display.ofEvents total baseDelay events).shots.length ∧
      (Display.ofEvents total baseDelay events).shots.length ≤ limits.frameCap := by
  have hrun : forM events Event.play (start total baseDelay limits fast stopped) = (.ok (), _) := Prod.ext h rfl
  have hshows := (Shows.start total baseDelay limits fast stopped).of_run hrun
  rw [snd_follow]
  exact ⟨hshows.pauses, hshows.shots_le⟩

/-- Nothing but the ceiling refuses the calls of a run in fast mode that nobody stops. -/
theorem ok_of_not_refusedFrame (hcalls : ∀ event ∈ events, ∃ r, event = .call r ∧ r.served total)
    (h : ¬ (start total baseDelay limits true false).RefusedFrame events) :
    ((forM events Event.play : Play Unit) (start total baseDelay limits true false)).1 = .ok () := by
  have hfree : (start total baseDelay limits true false).FreeOn total :=
    { fast := rfl, unstopped := rfl, size := Channels.size_blank total }
  cases hrun : ((forM events Event.play : Play Unit) (start total baseDelay limits true false)).1 with
  | ok _ => rfl
  | error a =>
    obtain ⟨cap, rfl⟩ := (Unhindered.calls hcalls _ hfree).2 a hrun
    exact absurd ⟨cap, hrun⟩ h

/-- It does so exactly if they take more shots than there may be. -/
theorem refusedFrame_iff (hcalls : ∀ event ∈ events, ∃ r, event = .call r ∧ r.served total) :
    (start total baseDelay limits true false).RefusedFrame events ↔
      limits.frameCap < (Display.ofEvents total baseDelay events).shots.length := by
  constructor
  · rintro ⟨cap, hcap⟩
    by_contra hroom
    have hok := ((Passes.calls hcalls).ok _ _ (.start total baseDelay limits true false) ⟨rfl, rfl⟩
      (Nat.le_of_not_lt hroom)).1
    cases hok.symm.trans hcap
  · intro hmany
    by_contra h
    have hfew := (pauses_of_ok (ok_of_not_refusedFrame hcalls h) (.ok ())).2
    omega

end Refusals

end Session

theorem snd_outcome (ending : Except ScriptError Unit × Session) : (outcome ending).2 = ending.2.stats := by
  obtain ⟨result, s⟩ := ending
  cases result with
  | ok _ => exact s.stats_recordFinal
  | error e => rfl

theorem fst_outcome_eq_ok {ending : Except ScriptError Unit × Session} {frames : List Frame} :
    (outcome ending).1 = .ok frames ↔ ending.1.isOk ∧ captured ending = frames := by
  obtain ⟨result, s⟩ := ending
  cases result <;> simp [outcome, captured, Except.isOk, Except.toBool]

/-- One frame for each pause, and one more for the final state. -/
theorem length_captured {ending : Except ScriptError Unit × Session} (h : ending.2.Tallied) :
    (captured ending).length =
      ending.2.pauses + if ending.1.isOk ∧ ending.2.pauses = 0 ∧ 0 < ending.2.frameCap then 1 else 0 := by
  obtain ⟨result, s⟩ := ending
  cases result with
  | ok _ => simpa [captured, Except.isOk, Except.toBool] using h.size_recordFinal
  | error e => simpa [captured, Except.isOk, Except.toBool] using h.frames

theorem validate_of_parse {source : String} {tree : ScriptTree} (hblank : source.toList.all Text.isBlank = false)
    (hpolicy : Policy.violations source = []) (hparse : ScriptTree.parse source = .ok tree) :
    validate source = .ok tree := by
  simp only [validate, hblank, hparse, hpolicy]
  rfl

namespace Executor

/-! ### Runs -/

variable {e : Executor} {source : String} {tree : ScriptTree}

/-- Whatever engine runs a script, some events happen one after another up to the first that is refused, and nothing
else is known of the run. -/
theorem finished_eq_follow {engine : Engine} {q : engine.State} {s : Session}
    {ended : Except ScriptError Unit × Session} (h : engine.Runs q s ended) (interrupted : Bool)
    {P : Except ScriptError Unit → Prop} (hends : engine.Ends P) (hok : P (.ok ())) :
    ∃ events ending,
      e.finished interrupted ended =
          ((outcome (s.follow events ending)).1,
            { e with stats := some (s.follow events ending).2.stats, stopRequested := interrupted }) ∧
        P ending := by
  obtain ⟨events, ending, rfl, hending⟩ := h.follows hends hok
  refine ⟨events, ending, ?_, hending⟩
  rw [← snd_outcome]
  rfl

/-- An executor that runs nothing runs a script that passes validation: some events happen one after another, up to
the first that is refused, and nothing else is known of the run.  If none is refused for the ceiling, then the run is
not aborted for it. -/
theorem run_eq_follow (hidle : e.running = false) (hvalid : validate source = .ok tree) (fast interrupted : Bool)
    (total : Nat) (baseDelay : Duration) :
    ∃ events ending,
      let ended := (Session.start total baseDelay e.limits fast interrupted).follow events ending
      e.run fast interrupted source total baseDelay =
          ((outcome ended).1, { e with stats := some ended.2.stats, stopRequested := interrupted }) ∧
        ∀ cap, ending ≠ .error (.aborted (.frameLimit cap)) := by
  obtain ⟨events, ending, hrun, hlate⟩ :=
    runTree_follows tree e.limits.callLevels (.start total baseDelay e.limits fast interrupted)
  refine ⟨events, ending, ?_, fun cap hcap => ?_⟩
  · simp only [run, hidle, hvalid, hrun, ← snd_outcome]
    rfl
  · obtain ⟨limit, hlimit⟩ := hlate _ hcap
    cases hlimit

/-- **Statistics count pauses.**  The run of a script is a sequence of events, whatever engine runs it, as long as that
stops at the first event that is refused, and so is that of a script that passes validation here; what is known of it
afterwards is known of the session that they leave.  Whatever the events are, there are as many frames in the
statistics as are captured, whether the run gives them or not, but for one case: a run that ends without an error and
without a pause has captured the final state if there is room for a frame, and none is counted.  In a run that gives
frames they are as many as its calls take shots. -/
theorem frames_counted (e : Executor) (fast interrupted : Bool) (total : Nat) (baseDelay : Duration) :
    let start := Session.start total baseDelay e.limits fast interrupted
    (∀ (engine : Engine) q ended, engine.Runs q start ended →
      ∃ events ending, e.finished interrupted ended =
        ((outcome (start.follow events ending)).1,
          { e with stats := some (start.follow events ending).2.stats, stopRequested := interrupted })) ∧
    (∀ source tree, e.running = false → validate source = .ok tree →
      ∃ events ending, e.run fast interrupted source total baseDelay =
        ((outcome (start.follow events ending)).1,
          { e with stats := some (start.follow events ending).2.stats, stopRequested := interrupted })) ∧
    ∀ (events : List Event) (ending : Except ScriptError Unit),
      let ended := start.follow events ending
      let counted := ended.2.stats.frames
      (captured ended).length =
        counted + (if ended.1.isOk ∧ counted = 0 ∧ 0 < e.limits.frameCap then 1 else 0) ∧
      counted ≤ e.limits.frameCap ∧
      ∀ frames, (outcome ended).1 = .ok frames →
        frames = captured ended ∧ counted = (Display.ofEvents total baseDelay events).shots.length := by
  intro start
  refine ⟨fun engine q ended hruns => ?_, fun source tree hidle hvalid => ?_, fun events ending => ?_⟩
  · obtain ⟨events, ending, hrun, -⟩ :=
      finished_eq_follow hruns interrupted (P := fun _ => True) (fun _ _ _ => trivial) trivial
    exact ⟨events, ending, hrun⟩
  · obtain ⟨events, ending, hrun, -⟩ := run_eq_follow hidle hvalid fast interrupted total baseDelay
    exact ⟨events, ending, hrun⟩
  intro ended counted
  obtain ⟨d, hshows⟩ := Session.exists_shows_follow total baseDelay e.limits fast interrupted events ending
  refine ⟨?_, ?_, ?_⟩
  · rw [length_captured hshows.tallied, hshows.frameCap]
    rfl
  · have hle := hshows.tallied.pauses_le
    rwa [hshows.frameCap] at hle
  · intro frames hok
    obtain ⟨s, hrun, -, -⟩ := Session.outcome_follow_eq_ok.1 hok
    exact ⟨(fst_outcome_eq_ok.1 hok).2.symm, (Session.pauses_of_ok (congrArg Prod.fst hrun) ending).1⟩

def onePause : String := "sleep(delay_time);"

def onePauseTree : ScriptTree := ⟨[.term (.call "sleep" [.var "delay_time" ⟨1, 7⟩] ⟨1, 1⟩)], []⟩

theorem validate_onePause : validate onePause = .ok onePauseTree := by
  have hparse : ScriptTree.parse onePause = .ok onePauseTree := by cbv
  exact validate_of_parse (by decide) (by decide +kernel) hparse

/-- A run in fast mode over two channels that may take so many frames. -/
def pairRun (cap : Nat) : Session := .start 2 (.ofMillis 20) { ScriptLimits.standard with frameCap := cap } true false

/-- One pause makes one frame, and one is counted. -/
theorem frames_counted_once :
    ((Engine.ofEnding (.ok ())).Runs [.call (.pause 20)] (pairRun 1)
        ((pairRun 1).follow [.call (.pause 20)] (.ok ())) ∧
      ∃ events ending,
        (Executor.ofLimits { ScriptLimits.standard with frameCap := 1 }).finished false
            ((pairRun 1).follow [.call (.pause 20)] (.ok ())) =
          ((outcome ((pairRun 1).follow events ending)).1,
            { Executor.ofLimits { ScriptLimits.standard with frameCap := 1 } with
              stats := some ((pairRun 1).follow events ending).2.stats
              stopRequested := false })) ∧
    (validate onePause = .ok onePauseTree ∧
      ∃ events ending, (Executor.ofLimits .standard).run true false onePause 2 (.ofMillis 20) =
        ((outcome ((Session.start 2 (.ofMillis 20) .standard true false).follow events ending)).1,
          { Executor.ofLimits .standard with
            stats := some ((Session.start 2 (.ofMillis 20) .standard true false).follow events ending).2.stats
            stopRequested := false })) ∧
      (outcome ((pairRun 1).follow [.call (.pause 20)] (.ok ()))).1 =
        .ok [⟨"script-frame-1", #[false, false], .ofMillis 20, none⟩] ∧
      ((pairRun 1).follow [.call (.pause 20)] (.ok ())).2.stats.frames = 1 := by
  have hresult : (outcome ((pairRun 1).follow [.call (.pause 20)] (.ok ()))).1 =
      .ok [⟨"script-frame-1", #[false, false], .ofMillis 20, none⟩] := rfl
  have hrun := (frames_counted (.ofLimits .standard) true false 2 (.ofMillis 20)).2.1 onePause onePauseTree rfl
    validate_onePause
  obtain ⟨hengine, -, hevents⟩ :=
    frames_counted (.ofLimits { ScriptLimits.standard with frameCap := 1 }) true false 2 (.ofMillis 20)
  have hruns := Engine.runs_ofEnding [.call (.pause 20)] (.ok ()) (pairRun 1)
  have hcount := hevents [.call (.pause 20)] (.ok ())
  exact ⟨⟨hruns, hengine _ _ _ hruns⟩, ⟨validate_onePause, hrun⟩, hresult, (hcount.2.2 _ hresult).2.trans (by decide)⟩

/-- A script that never pauses gives the final state, and no frame is counted. -/
theorem final_state_uncounted :
    ((Executor.ofLimits .standard).generate "on();" 2 (.ofMillis 20)).1 =
        .ok [⟨"script-frame-1", #[true, true], .ofMillis 20, some "Final State"⟩] ∧
      ((Executor.ofLimits .standard).generate "on();" 2 (.ofMillis 20)).2.stats = some ⟨0, []⟩ := by
  have hparse : ScriptTree.parse "on();" = .ok ⟨[.term (.call "on" [] ⟨1, 1⟩)], []⟩ := by cbv
  have hvalidate := validate_of_parse (by decide) (by decide +kernel) hparse
  simp only [generate, run, hvalidate]
  exact ⟨rfl, rfl⟩

/-- **The warning of truncation.**  The run of a script is a sequence of events, whatever engine runs it, as long as that
stops at the first event that is refused and only then reports the ceiling, and so is that of a script that passes
validation here.  If one of
them is refused for the ceiling, the run is warned about and aborted, and it is aborted for the ceiling only then.  But
there is a warning exactly if as many frames are counted as there may be: in a run that gives frames, and is not
refused anything, if its calls take just so many shots.  A run of calls in fast mode that nobody stops is refused a
shot if they take more than there may be, and warned about if they take as many or more. -/
theorem truncation_warned (e : Executor) (fast interrupted : Bool) (total : Nat) (baseDelay : Duration) :
    let start := Session.start total baseDelay e.limits fast interrupted
    let cap := e.limits.frameCap
    (∀ (engine : Engine) q ended, engine.Ends (fun ending => ∀ c, ending ≠ .error (.aborted (.frameLimit c))) →
      engine.Runs q start ended → ∃ events ending,
        e.finished interrupted ended =
          ((outcome (start.follow events ending)).1,
            { e with stats := some (start.follow events ending).2.stats, stopRequested := interrupted }) ∧
        ∀ c, ending ≠ .error (.aborted (.frameLimit c))) ∧
    (∀ source tree, e.running = false → validate source = .ok tree →
      ∃ events ending,
        e.run fast interrupted source total baseDelay =
          ((outcome (start.follow events ending)).1,
            { e with stats := some (start.follow events ending).2.stats, stopRequested := interrupted }) ∧
        ∀ c, ending ≠ .error (.aborted (.frameLimit c))) ∧
    ∀ (events : List Event) (ending : Except ScriptError Unit),
      let ended := start.follow events ending
      let shots := (Display.ofEvents total baseDelay events).shots.length
      let warned := truncationWarning ∈ ended.2.stats.warnings
      let refused := start.RefusedFrame events
      (refused → warned) ∧
      ((∀ c, ending ≠ .error (.aborted (.frameLimit c))) →
        (refused ↔ (outcome ended).1 = .error (.aborted (.frameLimit cap)))) ∧
      (warned ↔ ended.2.stats.frames = cap) ∧
      (∀ frames, (outcome ended).1 = .ok frames → ¬ refused ∧ (warned ↔ shots = cap)) ∧
      (fast = true → interrupted = false → (∀ event ∈ events, ∃ r, event = .call r ∧ r.served total) →
        (refused ↔ cap < shots) ∧ (warned ↔ cap ≤ shots)) := by
  intro start cap
  refine ⟨fun engine q ended hends hruns => finished_eq_follow hruns interrupted hends nofun,
    fun source tree hidle hvalid => run_eq_follow hidle hvalid .., fun events ending => ?_⟩
  intro ended shots warned refused
  obtain ⟨d, hshows⟩ := Session.exists_shows_follow total baseDelay e.limits fast interrupted events ending
  have hfew := hshows.tallied.pauses_le
  have hwarned := Session.mem_warnings_stats (s := ended.2)
  rw [hshows.frameCap] at hfew hwarned
  have hrefused (h : refused) : warned := hwarned.2 (h.full ending).2
  -- Where nothing is refused, every shot is counted.
  have hall (h : ((forM events Event.play : Play Unit) start).1 = .ok ()) : ended.2.pauses = shots ∧ shots ≤ cap :=
    Session.pauses_of_ok h ending
  refine ⟨hrefused, fun hending => ?_, ?_, ?_, ?_⟩
  · rw [Session.outcome_eq_frameLimit_iff (hending cap)]
    exact ⟨fun h => (h.full ending).1, fun h => ⟨cap, h⟩⟩
  · exact hwarned.trans ⟨Nat.le_antisymm hfew, fun h => Nat.le_of_eq h.symm⟩
  · intro frames hok
    obtain ⟨s, hrun, -, -⟩ := Session.outcome_follow_eq_ok.1 hok
    have hresult := congrArg Prod.fst hrun
    obtain ⟨hpauses, hroom⟩ := hall hresult
    refine ⟨fun h => ?_, ?_⟩
    · cases hresult.symm.trans (h.full ending).1
    · rw [hpauses] at hwarned
      exact hwarned.trans ⟨Nat.le_antisymm hroom, fun h => Nat.le_of_eq h.symm⟩
  · rintro rfl rfl hcalls
    have hmany : refused ↔ cap < shots := Session.refusedFrame_iff hcalls
    refine ⟨hmany, ?_⟩
    by_cases h : refused
    · have := hmany.1 h
      exact iff_of_true (hrefused h) (by omega)
    · rw [(hall (Session.ok_of_not_refusedFrame hcalls h)).1] at hwarned
      exact hwarned

/-- Where there may be one frame, there is a warning of two pauses, of which one is refused, and also of one. -/
theorem truncation_warned_twice :
    (validate onePause = .ok onePauseTree ∧
      ∃ events ending,
        (Executor.ofLimits { ScriptLimits.standard with frameCap := 1 }).run true false onePause 2 (.ofMillis 20) =
          ((outcome ((pairRun 1).follow events ending)).1,
            { Executor.ofLimits { ScriptLimits.standard with frameCap := 1 } with
              stats := some ((pairRun 1).follow events ending).2.stats
              stopRequested := false }) ∧
        ∀ c, ending ≠ .error (.aborted (.frameLimit c))) ∧
      ((pairRun 1).RefusedFrame [.call (.pause 20), .call (.pause 20)] ∧
        (outcome ((pairRun 1).follow [.call (.pause 20), .call (.pause 20)] (.ok ()))).1 =
          .error (.aborted (.frameLimit 1)) ∧
        truncationWarning ∈
          ((pairRun 1).follow [.call (.pause 20), .call (.pause 20)] (.ok ())).2.stats.warnings) ∧
      (outcome ((pairRun 1).follow [.call (.pause 20)] (.ok ()))).1 =
          .ok [⟨"script-frame-1", #[false, false], .ofMillis 20, none⟩] ∧
        ¬ (pairRun 1).RefusedFrame [.call (.pause 20)] ∧
        truncationWarning ∈ ((pairRun 1).follow [.call (.pause 20)] (.ok ())).2.stats.warnings := by
  obtain ⟨-, hruns, hevents⟩ :=
    truncation_warned (.ofLimits { ScriptLimits.standard with frameCap := 1 }) true false 2 (.ofMillis 20)
  obtain ⟨hwarned, haborted, -, -, hcalls⟩ := hevents [.call (.pause 20), .call (.pause 20)] (.ok ())
  have hrefused : (pairRun 1).RefusedFrame [.call (.pause 20), .call (.pause 20)] :=
    (hcalls rfl rfl (by simp [Request.served])).1.2 (by decide)
  have hending : ∀ c, (.ok () : Except ScriptError Unit) ≠ .error (.aborted (.frameLimit c)) := by
    intro c h
    cases h
  have hresult : (outcome ((pairRun 1).follow [.call (.pause 20)] (.ok ()))).1 =
      .ok [⟨"script-frame-1", #[false, false], .ofMillis 20, none⟩] := rfl
  obtain ⟨hnone, hfull⟩ := (hevents [.call (.pause 20)] (.ok ())).2.2.2.1 _ hresult
  exact ⟨⟨validate_onePause, hruns onePause onePauseTree rfl validate_onePause⟩,
    ⟨hrefused, (haborted hending).1 hrefused, hwarned hrefused⟩, hresult, hnone, hfull.2 (by decide)⟩

/-- A script that pauses as often as it may gives all its frames, and there is a warning as well. -/
theorem warned_untruncated :
    ((Executor.ofLimits { ScriptLimits.standard with frameCap := 1 }).generate onePause 2 (.ofMillis 20)).1 =
        .ok [⟨"script-frame-1", #[false, false], .ofMillis 20, none⟩] ∧
      ((Executor.ofLimits { ScriptLimits.standard with frameCap := 1 }).generate onePause 2 (.ofMillis 20)).2.stats =
        some ⟨1, [truncationWarning]⟩ := by
  simp only [generate, run, validate_onePause]
  exact ⟨rfl, rfl⟩

end Executor

end RunningLights.Script
