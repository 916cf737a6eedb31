import RunningLights.Procedure.Simulation
import RunningLights.Proofs.Run.Relation

/-!
# What a run records after it has halted

A halted run starts no statement, but it ends those that are in progress.  Of these only a sleep records anything:
one whose delay calls the function in which the run has halted.

* `Settled` — what the recorder holds, as long as the run lives and afterwards;
* `Simulation.frames_after_halt` — the frames of a run are those it had when it halted and one more for every sleep
  that was waiting, as far as the cap allows.
-/

namespace RunningLights.Procedure

namespace Machine

variable (m : Machine)

@[simp] theorem recorder_stop : m.stop.recorder = m.recorder := by
  obtain ⟨halt, hs⟩ := m.stop_eq
  rw [hs]

@[simp] theorem sleeps_stop : m.stop.sleeps = m.sleeps := by
  obtain ⟨halt, hs⟩ := m.stop_eq
  rw [hs]

theorem sleeps_tick : m.tick.2.sleeps = m.sleeps := by
  rcases m.tick_cases with ⟨-, e⟩ | ⟨-, -, e⟩ | ⟨-, -, e⟩ <;> rw [e]

theorem sleeps_modifyCurrent (g : Activation → Activation) : (m.modifyCurrent g).sleeps = m.sleeps := by
  obtain ⟨calls, root, hg⟩ := m.modifyCurrent_eq g
  rw [hg]

theorem halt_stop_of_some {h : Halt} (hm : m.halt = some h) : m.stop.halt = some h := by
  simp [stop, halted, hm]

theorem halt_stop_of_none (hm : m.halt = none) : m.stop.halt = some ⟨m.recorder.frames, m.sleeps⟩ := by
  simp [stop, halted, hm]

variable (d : Duration) (label : Option String)

@[simp] theorem recorder_capture : (m.capture d label).recorder = m.recorder.capture m.channels d label := by
  obtain ⟨halt, hc⟩ := m.capture_eq d label
  rw [hc]

@[simp] theorem sleeps_capture : (m.capture d label).sleeps = m.sleeps := by
  obtain ⟨halt, hc⟩ := m.capture_eq d label
  rw [hc]

theorem halt_capture_of_lt (h : m.recorder.frames.size < m.recorder.cap) : (m.capture d label).halt = m.halt := by
  rw [capture_of_lt h]

theorem halt_capture_of_le (h : m.recorder.cap ≤ m.recorder.frames.size) :
    (m.capture d label).halt = m.stop.halt := by
  have hf : m.recorder.isFull = true := by
    simp [Recorder.isFull]
    omega
  simp [capture, hf]

end Machine

/-- The recorder holds `most` frames at the most; and if the run has halted, it holds those of then and one for every
sleep that waited then and does not any more. -/
structure Settled (most : Nat) (m : Machine) : Prop where
  cap : m.recorder.cap = most
  atMost : m.recorder.frames.size ≤ most
  late : ∀ h, m.halt = some h → m.sleeps ≤ h.sleeps ∧ h.frames.toList <+: m.recorder.frames.toList ∧
    m.recorder.frames.size = min most (h.frames.size + (h.sleeps - m.sleeps))

namespace Settled

variable {most : Nat} {m n : Machine}

theorem congr (h : Settled most m) (hc : n.recorder.cap = m.recorder.cap)
    (hf : n.recorder.frames = m.recorder.frames) (hh : n.halt = m.halt) (hs : n.sleeps = m.sleeps) :
    Settled most n := by
  obtain ⟨cap, atMost, late⟩ := h
  refine ⟨hc.trans cap, by rw [hf]; exact atMost, ?_⟩
  rw [hh, hs, hf]
  exact late

theorem modifyCurrent (h : Settled most m) (g : Activation → Activation) : Settled most (m.modifyCurrent g) := by
  obtain ⟨calls, root, hg⟩ := m.modifyCurrent_eq g
  rw [hg]
  exact h.congr rfl rfl rfl rfl

theorem stop (h : Settled most m) : Settled most m.stop := by
  cases hm : m.halt with
  | some s => exact h.congr (by simp) (by simp) ((m.halt_stop_of_some hm).trans hm.symm) m.sleeps_stop
  | none =>
    refine ⟨m.recorder_stop ▸ h.cap, m.recorder_stop ▸ h.atMost, fun s hs => ?_⟩
    rw [m.halt_stop_of_none hm, Option.some_inj] at hs
    have := h.atMost
    rw [← hs, m.recorder_stop, m.sleeps_stop]
    refine ⟨Nat.le_refl _, List.prefix_rfl, ?_⟩
    simp only
    omega

theorem tick (h : Settled most m) : Settled most m.tick.2 := by
  unfold Machine.tick
  split
  · exact h
  · split
    · exact stop (h.congr rfl rfl rfl rfl)
    · exact h.congr rfl rfl rfl rfl

/-- A frame that the cap refuses changes nothing. -/
theorem capture_full (h : Settled most m) (hm : m.recorder.cap ≤ m.recorder.frames.size) (d : Duration)
    (label : Option String) : Settled most (m.capture d label) := by
  refine h.stop.congr ?_ ?_ (m.halt_capture_of_le d label hm) (by simp)
  · rw [m.recorder_capture, Recorder.capture_of_le _ _ _ _ hm, m.recorder_stop]
  · rw [m.recorder_capture, Recorder.capture_of_le _ _ _ _ hm, m.recorder_stop]

/-- While the run lives a frame may be recorded at any time. -/
theorem capture_live (h : Settled most m) (hm : m.halt = none) (d : Duration) (label : Option String) :
    Settled most (m.capture d label) := by
  rcases Nat.lt_or_ge m.recorder.frames.size m.recorder.cap with hlt | hge
  · have hc : (m.capture d label).halt = none := (m.halt_capture_of_lt d label hlt).trans hm
    have hlt' : m.recorder.frames.size < most := h.cap ▸ hlt
    refine ⟨?_, ?_, fun s hs => ?_⟩
    · rw [m.recorder_capture, Recorder.capture_of_lt _ _ _ _ hlt]
      exact h.cap
    · rw [m.recorder_capture, Recorder.capture_of_lt _ _ _ _ hlt]
      simp only [Array.size_push]
      omega
    · rw [hc] at hs
      cases hs
  · exact h.capture_full hge d label

/-- After the halt a frame is recorded for a sleep that waited, `m` being the state when it waits no more. -/
theorem capture_late (h : Settled most n) {s : Halt} (hs : n.halt = some s) (hr : m.recorder = n.recorder)
    (hh : m.halt = n.halt) (hw : m.sleeps + 1 = n.sleeps) (d : Duration) (label : Option String) :
    Settled most (m.capture d label) := by
  have hcap : m.recorder.cap = most := hr ▸ h.cap
  have hmost : m.recorder.frames.size ≤ most := hr ▸ h.atMost
  obtain ⟨hle, hpre, hsize⟩ := h.late s hs
  rw [← hr] at hpre hsize
  have hm : m.halt = some s := hh.trans hs
  rcases Nat.lt_or_ge m.recorder.frames.size m.recorder.cap with hlt | hge
  · have hc : (m.capture d label).halt = some s := (m.halt_capture_of_lt d label hlt).trans hm
    have hrec := m.recorder_capture d label
    rw [Recorder.capture_of_lt _ _ _ _ hlt] at hrec
    refine ⟨?_, ?_, fun t ht => ?_⟩
    · rw [hrec]
      exact hcap
    · rw [hrec, Array.size_push]
      omega
    · rw [hc, Option.some_inj] at ht
      rw [← ht, hrec, m.sleeps_capture, Array.toList_push, Array.size_push]
      exact ⟨by omega, hpre.trans (List.prefix_append _ _), by omega⟩
  · refine capture_full ⟨hcap, hmost, fun t ht => ?_⟩ hge d label
    have hst : s = t := Option.some_inj.1 (hm.symm.trans ht)
    rw [← hst]
    exact ⟨by omega, hpre, by omega⟩

/-- **Every elementary change keeps the recorder settled** and leaves as many sleeps waiting. -/
theorem step (most : Nat) : Step fun m n => Settled most m → Settled most n ∧ n.sleeps = m.sleeps where
  refl _ h := ⟨h, rfl⟩
  trans hmn hno h := by
    obtain ⟨hn, hs⟩ := hmn h
    obtain ⟨ho, ht⟩ := hno hn
    exact ⟨ho, ht.trans hs⟩
  edit m hf h := by
    obtain ⟨channels, calls, root, arrays, generator, failed, -, hm⟩ := hf.spec m
    rw [hm]
    exact ⟨h.congr rfl rfl rfl rfl, rfl⟩
  sleep {m n} d hl hn h := by
    have hlive : m.halt = none := by simpa [Machine.halted] using hl
    have hb : Settled most m.beginSleep := ⟨h.cap, h.atMost, fun s hs => by cases hlive.symm.trans hs⟩
    obtain ⟨hn, hs⟩ := hn hb
    have hs : n.sleeps = m.sleeps + 1 := hs
    have hw : n.endSleep.sleeps + 1 = n.sleeps := by
      show n.sleeps - 1 + 1 = n.sleeps
      omega
    refine ⟨?_, ?_⟩
    · cases hh : n.halt with
      | some s => exact hn.capture_late (m := n.endSleep) hh rfl rfl hw d none
      | none =>
        have he : Settled most n.endSleep := ⟨hn.cap, hn.atMost, fun s hs => by cases hh.symm.trans hs⟩
        exact he.capture_live hh d none
    · rw [n.endSleep.sleeps_capture]
      omega
  switchAll {m} on hl h := by
    have hlive : m.halt = none := by simpa [Machine.halted] using hl
    have hf : Settled most { m with channels := m.channels.fill on } := h.congr rfl rfl rfl rfl
    exact ⟨hf.capture_live hlive m.baseDelay _, Machine.sleeps_capture _ _ _⟩
  tick m h := ⟨h.tick, m.sleeps_tick⟩
  loop {m n} credit l hn h := by
    have hg : Settled most (m.grant credit) := h.congr rfl rfl rfl rfl
    obtain ⟨hn, hs⟩ := hn (hg.modifyCurrent _)
    refine ⟨hn.modifyCurrent _, (n.sleeps_modifyCurrent _).trans (hs.trans ?_)⟩
    exact (m.grant credit).sleeps_modifyCurrent _
  call a hn h := by
    obtain ⟨hn, hs⟩ := hn (h.congr rfl rfl rfl rfl)
    exact ⟨hn.congr rfl rfl rfl rfl, hs⟩
  learn _ name f h := ⟨h.congr rfl rfl rfl rfl, rfl⟩
  exhaust _ h := ⟨h.congr rfl rfl rfl rfl, rfl⟩

theorem start (total : Nat) (baseDelay : Duration) (most limit seed : Nat) :
    Settled most (.start total baseDelay most limit seed) where
  cap := rfl
  atMost := Nat.zero_le _
  late s hs := by cases hs

end Settled

end RunningLights.Procedure

namespace RunningLights.Simulation

open Procedure

/-- **Late frames.**  A run that has halted keeps the frames that it had and records one for every sleep that was
waiting for its delay, as far as the cap allows.  It records none exactly if no sleep was waiting or the cap was
reached. -/
theorem frames_after_halt {total : Nat} {baseDelay : Duration} {limits : RunLimits} {commands : List Command}
    {h : Halt} (hh : (finalMachine total baseDelay limits commands).halt = some h) :
    h.frames.toList <+: (finalMachine total baseDelay limits commands).recorder.frames.toList ∧
    (finalMachine total baseDelay limits commands).recorder.frames.size =
      min limits.frameCap (h.frames.size + h.sleeps) ∧
    ((finalMachine total baseDelay limits commands).recorder.frames = h.frames ↔
      h.sleeps = 0 ∨ h.frames.size = limits.frameCap) := by
  have hrun := (Settled.step limits.frameCap).run (.ofCommands commands)
    (.start total baseDelay limits.frameCap (workLimit limits commands.length) limits.seed)
  obtain ⟨hm, hs⟩ := hrun (.start _ _ _ _ _)
  have hs : (finalMachine total baseDelay limits commands).sleeps = 0 := hs
  obtain ⟨-, hpre, hsize⟩ := hm.late h hh
  change h.frames.toList <+: (finalMachine total baseDelay limits commands).recorder.frames.toList at hpre
  change (finalMachine total baseDelay limits commands).recorder.frames.size =
    min limits.frameCap (h.frames.size + (h.sleeps - (finalMachine total baseDelay limits commands).sleeps)) at hsize
  generalize finalMachine total baseDelay limits commands = m at *
  have hle : h.frames.size ≤ m.recorder.frames.size := hpre.length_le
  rw [hs, Nat.sub_zero] at hsize
  refine ⟨hpre, hsize, fun he => ?_, fun hc => ?_⟩
  · rw [he] at hsize
    omega
  · have hlen : h.frames.toList.length = m.recorder.frames.toList.length := by
      show h.frames.size = m.recorder.frames.size
      omega
    exact (Array.toList_inj.1 (hpre.eq_of_length hlen)).symm

/-- A program that lights the strip and then sleeps for what a function gives that never ends. -/
def endlessDelay : List Command :=
  [.functionStart "spin" [], .doStart, .doEnd (some (.ofWord 1)), .functionEnd, .act .allOn,
    .act (.sleep (some ⟨"spin()", some (.call "spin" [])⟩))]

/-- Where a run of it halts: in the function, when the strip has been recorded. -/
def endlessHalt : Halt := ⟨#[⟨"proc-frame-1", #[true], .ofMillis 30, some "All ON"⟩], 1⟩

theorem frames_after_endlessHalt :
    (finalMachine 1 (.ofMillis 30) ⟨1, 9, 0⟩ endlessDelay).halt = some endlessHalt ∧
    (finalMachine 1 (.ofMillis 30) ⟨1, 9, 0⟩ endlessDelay).recorder.frames.size =
      min 9 (endlessHalt.frames.size + endlessHalt.sleeps) := by
  have hh : (finalMachine 1 (.ofMillis 30) ⟨1, 9, 0⟩ endlessDelay).halt = some endlessHalt := by decide +kernel
  exact ⟨hh, (frames_after_halt hh).2.1⟩

/-- The frames of a run are not always those that it had when it halted. -/
theorem halt_not_final :
    ¬ ∀ (total : Nat) (baseDelay : Duration) (limits : RunLimits) (commands : List Command) (h : Halt),
      (finalMachine total baseDelay limits commands).halt = some h →
        (finalMachine total baseDelay limits commands).recorder.frames = h.frames := by
  intro hall
  have hh : (finalMachine 1 (.ofMillis 30) ⟨1, 9, 0⟩ endlessDelay).halt = some endlessHalt := by decide +kernel
  have hsize : (finalMachine 1 (.ofMillis 30) ⟨1, 9, 0⟩ endlessDelay).recorder.frames.size = 2 := by decide +kernel
  rw [hall _ _ _ _ _ hh] at hsize
  cases hsize

end RunningLights.Simulation
