import RunningLights.Procedure.Simulation
import RunningLights.Proofs.Run.Relation

/-!
# The frames of a report

Whatever a program does, its report can be shown: `Simulation.presentable_report`.  The recorder stays in order
through every elementary change (`Recorded`), and the labels of a run are those of its switches, so that the frame of
an empty pattern stands for itself.
-/

namespace RunningLights.Procedure

/-- A frame that a run with `total` channels records at place `i`. -/
structure Proper (total i : Nat) (f : Frame) : Prop where
  id : f.id = s!"proc-frame-{i + 1}"
  width : f.channels.size = total
  label : f.label ≠ some "Empty Pattern"

/-- The strip has `total` channels and the recorder holds proper frames, `most` at the most. -/
structure Recorded (total most : Nat) (m : Machine) : Prop where
  width : m.channels.size = total
  stem : m.recorder.stem = "proc"
  cap : m.recorder.cap = most
  atMost : m.recorder.frames.size ≤ most
  full : m.recorder.truncated = true → m.recorder.frames.size = most
  proper : ∀ i (hi : i < m.recorder.frames.size), Proper total i m.recorder.frames[i]

namespace Recorded

variable {total most : Nat} {m n : Machine}

/-- Nothing but the width and the recorder matters. -/
theorem congr (h : Recorded total most m) (hw : n.channels.size = m.channels.size) (hr : n.recorder = m.recorder) :
    Recorded total most n := by
  obtain ⟨width, stem, cap, atMost, full, proper⟩ := h
  rw [← hr] at stem cap atMost full
  refine ⟨hw.trans width, stem, cap, atMost, full, ?_⟩
  rw [hr]
  exact proper

theorem modifyCurrent (h : Recorded total most m) (g : Activation → Activation) :
    Recorded total most (m.modifyCurrent g) := by
  obtain ⟨calls, root, hg⟩ := m.modifyCurrent_eq g
  rw [hg]
  exact h.congr rfl rfl

theorem tick (h : Recorded total most m) : Recorded total most m.tick.2 := by
  rcases m.tick_cases with ⟨-, e⟩ | ⟨-, -, e⟩ | ⟨-, -, e⟩ <;> rw [e]
  · exact h
  · exact h.congr rfl rfl
  · exact h.congr rfl rfl

theorem capture (h : Recorded total most m) (d : Duration) {label : Option String}
    (hl : label ≠ some "Empty Pattern") : Recorded total most (m.capture d label) := by
  obtain ⟨halt, hc⟩ := m.capture_eq d label
  rw [hc]
  rcases Nat.lt_or_ge m.recorder.frames.size m.recorder.cap with hlt | hge
  · rw [Recorder.capture_of_lt _ _ _ _ hlt]
    have hlt' : m.recorder.frames.size < most := h.cap ▸ hlt
    refine ⟨h.width, h.stem, h.cap, ?_, fun ht => ?_, fun i hi => ?_⟩
    · simp only [Array.size_push]
      omega
    · have := h.full ht
      omega
    · simp only [Array.size_push] at hi
      simp only [Array.getElem_push]
      split
      · exact h.proper i _
      · have hi' : i = m.recorder.frames.size := by omega
        refine ⟨?_, h.width, hl⟩
        simp only [Recorder.idOf, h.stem, hi']
        rw [show toString "proc" ++ toString "-frame-" = toString "proc-frame-" from rfl]
  · rw [Recorder.capture_of_le _ _ _ _ hge]
    refine ⟨h.width, h.stem, h.cap, h.atMost, fun _ => ?_, h.proper⟩
    exact Nat.le_antisymm h.atMost (h.cap ▸ hge)

/-- **Every elementary change keeps the recorder in order.** -/
theorem step (total most : Nat) : Step fun m n => Recorded total most m → Recorded total most n where
  refl _ h := h
  trans hmn hno h := hno (hmn h)
  edit m hf h := by
    obtain ⟨channels, calls, root, arrays, generator, failed, hw, hm⟩ := hf.spec m
    rw [hm]
    exact h.congr hw rfl
  sleep {m n} d _ hn h := by
    have he : Recorded total most n.endSleep := (hn (h.congr rfl rfl)).congr rfl rfl
    exact he.capture d (by simp)
  switchAll {m} on _ h := by
    have hf : Recorded total most { m with channels := m.channels.fill on } := h.congr (Channels.size_fill _ _) rfl
    exact hf.capture m.baseDelay (by cases on <;> simp [switchLabel])
  tick _ h := h.tick
  loop {m n} credit l hn h := by
    have hg : Recorded total most (m.grant credit) := h.congr rfl rfl
    exact (hn (hg.modifyCurrent _)).modifyCurrent _
  learn _ name f h := h.congr rfl rfl
  call a hn h := (hn (h.congr rfl rfl)).congr rfl rfl
  exhaust _ h := h.congr rfl rfl

theorem start (total : Nat) (baseDelay : Duration) (most limit seed : Nat) :
    Recorded total most (.start total baseDelay most limit seed) where
  width := Channels.size_blank total
  stem := rfl
  cap := rfl
  atMost := Nat.zero_le _
  full h := by cases h
  proper i hi := by cases hi

end Recorded

end RunningLights.Procedure

namespace RunningLights.Simulation

open Procedure

/-- A report that can be shown, of a run that recorded the given frames: it has frames, all as wide as the strip,
numbered from one and as many as the cap allows; and a run without frames shows that its pattern is empty. -/
structure Presentable (total : Nat) (baseDelay : Duration) (cap : Nat) (recorded : Array Frame)
    (r : SimulationReport) : Prop where
  nonempty : r.frames ≠ []
  width : ∀ f ∈ r.frames, f.channels.size = total
  numbered : ∀ i (hi : i < r.frames.length), r.frames[i].id = s!"proc-frame-{i + 1}"
  atMost : r.frames.length ≤ max 1 cap
  truncated : r.truncated = true → r.frames.length = max 1 cap
  empty_iff : ⟨"proc-frame-1", .blank total, baseDelay, some "Empty Pattern"⟩ ∈ r.frames ↔ recorded = #[]
  empty_only : recorded = #[] → r.frames = [⟨"proc-frame-1", .blank total, baseDelay, some "Empty Pattern"⟩]
  label : recorded ≠ #[] → ∀ f ∈ r.frames, f.label ≠ some "Empty Pattern"

variable (total : Nat) (baseDelay : Duration) (limits : RunLimits)

theorem recorded_finalMachine (commands : List Command) :
    Recorded total limits.frameCap (finalMachine total baseDelay limits commands) :=
  (Recorded.step _ _).run _ _ (.start _ _ _ _ _)

theorem presentable_empty {cap : Nat} {r : SimulationReport} (hf : r.frames = [emptyFrame total baseDelay])
    (ht : r.truncated = true → cap = 0) : Presentable total baseDelay cap #[] r where
  nonempty := by simp [hf]
  width f hm := by
    rw [hf, List.mem_singleton] at hm
    rw [hm]
    exact Channels.size_blank total
  numbered i hi := by
    simp only [hf, List.length_singleton, Nat.lt_one_iff] at hi
    simp only [hf, hi]
    rfl
  atMost := by
    rw [hf]
    exact Nat.le_max_left _ _
  truncated h := by
    rw [hf, ht h]
    rfl
  empty_iff := by
    rw [hf]
    exact ⟨fun _ => rfl, fun _ => List.mem_cons_self⟩
  empty_only _ := hf
  label h := absurd rfl h

theorem presentable_recorded {cap : Nat} {r : SimulationReport} {m : Machine} (hm : Recorded total cap m)
    (hne : m.recorder.frames ≠ #[]) (hf : r.frames = m.recorder.frames.toList)
    (ht : r.truncated = m.recorder.truncated) : Presentable total baseDelay cap m.recorder.frames r := by
  have hpos : 0 < m.recorder.frames.size := Array.size_pos_iff.2 hne
  have hproper : ∀ f ∈ r.frames, ∃ i, Proper total i f := by
    intro f hfm
    rw [hf, Array.mem_toList_iff] at hfm
    obtain ⟨i, hi, rfl⟩ := Array.getElem_of_mem hfm
    exact ⟨i, hm.proper i hi⟩
  have hlen : r.frames.length = m.recorder.frames.size := by rw [hf, Array.length_toList]
  have hcap := hm.atMost
  refine ⟨?_, fun f hfm => ?_, fun i hi => ?_, by omega, fun h => ?_, ?_, fun h => absurd h hne, fun _ f hfm => ?_⟩
  · exact List.ne_nil_of_length_pos (hlen ▸ hpos)
  · obtain ⟨i, hp⟩ := hproper f hfm
    exact hp.width
  · simp only [hf, Array.getElem_toList]
    exact (hm.proper i (hlen ▸ hi)).id
  · have := hm.full (ht ▸ h)
    omega
  · refine ⟨fun h => ?_, fun h => absurd h hne⟩
    obtain ⟨i, hp⟩ := hproper _ h
    exact absurd rfl hp.label
  · obtain ⟨i, hp⟩ := hproper f hfm
    exact hp.label

theorem presentable_ofCommands (commands : List Command) :
    Presentable total baseDelay limits.frameCap (finalMachine total baseDelay limits commands).recorder.frames
      (ofCommands total baseDelay limits commands) := by
  have h := recorded_finalMachine total baseDelay limits commands
  unfold ofCommands
  generalize finalMachine total baseDelay limits commands = m at h
  by_cases he : m.recorder.frames = #[]
  · simp only [he]
    refine presentable_empty total baseDelay rfl fun ht => ?_
    rw [← h.full ht, he]
    rfl
  · exact presentable_recorded total baseDelay h he (by simp [shownFrames, he]) rfl

/-- **Reports.**  Whatever commands and whatever program text are run, the report can be shown.  Only a run that fails
has none. -/
theorem presentable_report :
    (∀ commands, Presentable total baseDelay limits.frameCap
      (finalMachine total baseDelay limits commands).recorder.frames (ofCommands total baseDelay limits commands)) ∧
    (∀ source, Presentable total baseDelay limits.frameCap
      (finalMachine total baseDelay limits (Command.ofSource source)).recorder.frames
      (ofSource total baseDelay limits source)) :=
  ⟨presentable_ofCommands total baseDelay limits, fun _ => presentable_ofCommands total baseDelay limits _⟩

end RunningLights.Simulation
