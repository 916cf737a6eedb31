import RunningLights.Proofs.Run.Ceiling
import RunningLights.Proofs.Run.Report

/-!
# What the frame cap leaves out

Two runs that differ in their caps alone do the same up to the frame that the smaller cap refuses, and from there on
the one with the smaller cap records nothing:

* `Grows` — frames are only ever added, up to the cap, and a refusal is remembered;
* `Truncates` — the computations that do the same under a greater cap, until a frame is refused;
* `Paid` — every frame is paid for by a unit of work, so that a cap above the ceiling refuses none;
* `Simulation.frames_of_frameCap` — a cap does nothing but leave out the frames behind it.
-/

namespace RunningLights.Procedure

/-! ### The recorder of a run -/

/-- Frames have been added, up to the cap, and what was refused stays so. -/
structure Grows (m n : Machine) : Prop where
  cap : n.recorder.cap = m.recorder.cap
  frames : m.recorder.frames.toList <+: n.recorder.frames.toList
  atMost : m.recorder.frames.size ≤ m.recorder.cap → n.recorder.frames.size ≤ m.recorder.cap
  truncated : m.recorder.truncated = true → n.recorder.truncated = true

namespace Grows

variable {m n o : Machine}

theorem of_recorder (h : n.recorder = m.recorder) : Grows m n where
  cap := congrArg Recorder.cap h
  frames := h ▸ List.prefix_rfl
  atMost hm := h ▸ hm
  truncated hm := h ▸ hm

theorem trans (hmn : Grows m n) (hno : Grows n o) : Grows m o where
  cap := hno.cap.trans hmn.cap
  frames := hmn.frames.trans hno.frames
  atMost h := by
    have hn := hmn.atMost h
    have ho := hno.atMost
    rw [hmn.cap] at ho
    exact ho hn
  truncated h := hno.truncated (hmn.truncated h)

theorem capture (m : Machine) (d : Duration) (label : Option String) : Grows m (m.capture d label) := by
  obtain ⟨halt, hc⟩ := m.capture_eq d label
  rw [hc]
  rcases Nat.lt_or_ge m.recorder.frames.size m.recorder.cap with hlt | hge
  · rw [Recorder.capture_of_lt _ _ _ _ hlt]
    refine ⟨rfl, ?_, fun _ => ?_, id⟩
    · simp only [Array.toList_push]
      exact List.prefix_append _ _
    · simp only [Array.size_push]
      omega
  · rw [Recorder.capture_of_le _ _ _ _ hge]
    exact ⟨rfl, List.prefix_rfl, id, fun _ => rfl⟩

end Grows

/-! ### Two caps -/

namespace Machine

def withCap (m : Machine) (cap : Nat) : Machine := { m with recorder := { m.recorder with cap } }

variable (m : Machine) (cap : Nat)

theorem modifyCurrent_withCap (g : Activation → Activation) :
    (m.withCap cap).modifyCurrent g = (m.modifyCurrent g).withCap cap := by
  unfold modifyCurrent
  rw [show (m.withCap cap).calls = m.calls from rfl]
  cases m.calls <;> rfl

theorem assign_withCap (name : String) (v : Value) :
    (m.withCap cap).assign name v = (m.assign name v).withCap cap := by
  unfold assign
  rw [show (m.withCap cap).calls = m.calls from rfl, show (m.withCap cap).root = m.root from rfl]
  cases assignVisible name v m.root m.calls with
  | some stored => rfl
  | none => exact m.modifyCurrent_withCap cap _

theorem tick_withCap : (m.withCap cap).tick = (m.tick.1, m.tick.2.withCap cap) := by
  rcases m.tick_cases with ⟨hm, e⟩ | ⟨hm, hlt, e⟩ | ⟨hm, hle, e⟩ <;> rw [e]
  · exact tick_of_halted hm
  · exact tick_of_lt hm hlt
  · exact tick_of_le hm hle

theorem recorder_tick : m.tick.2.recorder = m.recorder := by
  rcases m.tick_cases with ⟨-, e⟩ | ⟨-, -, e⟩ | ⟨-, -, e⟩ <;> rw [e]

theorem recorder_modifyCurrent (g : Activation → Activation) : (m.modifyCurrent g).recorder = m.recorder := by
  obtain ⟨calls, root, hg⟩ := m.modifyCurrent_eq g
  rw [hg]

end Machine

theorem Edit.withCap {f : Machine → Machine} (hf : Edit f) (m : Machine) (cap : Nat) :
    f (m.withCap cap) = (f m).withCap cap := by
  cases hf with
  | assign name v => exact m.assign_withCap cap name v
  | declare name kind isConst v =>
    exact m.modifyCurrent_withCap cap fun a => { a with locals := a.locals.set name ⟨some kind, isConst, kind.convert v⟩ }
  | loopVar n => exact m.modifyCurrent_withCap cap _
  | _ => rfl

/-- Nothing has been refused under the cap. -/
structure Whole (few : Nat) (m : Machine) : Prop where
  cap : m.recorder.cap = few
  atMost : m.recorder.frames.size ≤ few
  truncated : m.recorder.truncated = false

/-- A frame has been refused that `n` has, and the frames before it are those of both. -/
structure Cut (few : Nat) (m n : Machine) : Prop where
  cap : m.recorder.cap = few
  truncated : m.recorder.truncated = true
  frames : m.recorder.frames.toList = n.recorder.frames.toList.take few
  more : few < n.recorder.frames.size

/-- Whatever each of two machines does then, nothing is recorded under the cap any more. -/
theorem Cut.grows {few : Nat} {m n m' n' : Machine} (h : Cut few m n) (hm : Grows m m') (hn : Grows n n') :
    Cut few m' n' := by
  have hmore : few < n.recorder.frames.toList.length := h.more
  have hsize : m.recorder.frames.toList.length = few := by
    rw [h.frames, List.length_take]
    omega
  have hkept : m.recorder.frames.toList = m'.recorder.frames.toList := by
    have hle := hm.atMost (Nat.le_of_eq (hsize.trans h.cap.symm))
    rw [h.cap] at hle
    refine hm.frames.eq_of_length_le ?_
    rw [hsize]
    exact hle
  have hless : n.recorder.frames.size ≤ n'.recorder.frames.size := hn.frames.length_le
  refine ⟨hm.cap.trans h.cap, hm.truncated h.truncated, ?_, Nat.lt_of_lt_of_le h.more hless⟩
  obtain ⟨added, hadded⟩ := hn.frames
  rw [← hkept, h.frames, ← hadded, List.take_append_of_le_length (Nat.le_of_lt hmore)]

/-- The computations that do the same under the cap and under a greater one, until a frame is refused. -/
def Truncates (few most : Nat) : Law := fun α x => Keeps Grows α x ∧ ∀ m, Whole few m →
  (Whole few (x m).2 ∧ x (m.withCap most) = ((x m).1, (x m).2.withCap most)) ∨
    Cut few (x m).2 (x (m.withCap most)).2

namespace Truncates

variable {few most : Nat} {α β : Type}

/-- What neither reads nor changes the recorder. -/
theorem of_recorder {x : Run α} (hr : ∀ m, (x m).2.recorder = m.recorder)
    (hx : ∀ m : Machine, x (m.withCap most) = ((x m).1, (x m).2.withCap most)) : Truncates few most α x := by
  refine ⟨fun m => .of_recorder (hr m), fun m hm => .inl ⟨?_, hx m⟩⟩
  obtain ⟨hcap, hmost, htruncated⟩ := hm
  rw [← hr m] at hcap hmost htruncated
  exact ⟨hcap, hmost, htruncated⟩

theorem change {f : Machine → Machine} (hr : ∀ m, (f m).recorder = m.recorder)
    (hf : ∀ m : Machine, f (m.withCap most) = (f m).withCap most) : Truncates few most Unit (Run.change f) :=
  of_recorder hr fun m => congrArg ((), ·) (hf m)

theorem follow {x : Run α} {f : α → Run β} (hx : Truncates few most α x)
    (hf : ∀ m, Truncates few most β (f (x m).1)) : Truncates few most β (x >>= f) := by
  refine ⟨fun m => (hx.1 m).trans ((hf m).1 _), fun m hm => ?_⟩
  rcases hx.2 m hm with ⟨hwhole, hsame⟩ | hcut
  · have hrest : (x >>= f) (m.withCap most) = f (x m).1 ((x m).2.withCap most) := bind_of_eq hsame
    rw [hrest]
    exact (hf m).2 _ hwhole
  · exact .inr (hcut.grows ((hf m).1 _) ((hf (m.withCap most)).1 _))

theorem operational : Operational (Truncates few most) where
  pure _ := of_recorder (fun _ => rfl) fun _ => rfl
  follow := follow
  query hf := by
    refine of_recorder (fun _ => rfl) fun m => congrArg (·, m.withCap most) ?_
    cases hf <;> rfl
  edit {f} hf := by
    refine change (fun m => ?_) fun m => hf.withCap m most
    obtain ⟨channels, calls, root, arrays, generator, failed, -, hm⟩ := hf.spec m
    rw [hm]

/-- A frame is recorded under both caps, or the smaller one refuses it. -/
theorem capture (hlt : few < most) (d : Duration) (label : Option String) :
    Truncates few most Unit (Run.change fun m => m.capture d label) := by
  refine ⟨fun m => .capture m d label, fun m hm => ?_⟩
  obtain ⟨hcap, hmost, htruncated⟩ := hm
  have hmore : (m.withCap most).recorder.frames.size < (m.withCap most).recorder.cap := Nat.lt_of_le_of_lt hmost hlt
  have hrecorded := Machine.capture_of_lt hmore d label
  rw [Recorder.capture_of_lt _ _ _ _ hmore] at hrecorded
  rcases Nat.lt_or_ge m.recorder.frames.size m.recorder.cap with hfew | hfull
  · have hsame := Machine.capture_of_lt hfew d label
    rw [Recorder.capture_of_lt _ _ _ _ hfew] at hsame
    refine .inl ⟨?_, congrArg ((), ·) ?_⟩
    · show Whole few (m.capture d label)
      rw [hsame]
      refine ⟨hcap, ?_, htruncated⟩
      simp only [Array.size_push]
      omega
    · show (m.withCap most).capture d label = (m.capture d label).withCap most
      rw [hrecorded, hsame]
      rfl
  · refine .inr ?_
    show Cut few (m.capture d label) ((m.withCap most).capture d label)
    obtain ⟨halt, hc⟩ := m.capture_eq d label
    rw [hrecorded, hc, Recorder.capture_of_le _ _ _ _ hfull]
    refine ⟨hcap, rfl, ?_, ?_⟩
    · have hsize : m.recorder.frames.toList.length = few := Nat.le_antisymm hmost (hcap ▸ hfull)
      simp only [Array.toList_push]
      exact (List.take_left' hsize).symm
    · simp only [Array.size_push]
      exact Nat.lt_succ_of_le (hcap ▸ hfull)

theorem active (hlt : few < most) : Active (Truncates few most) (Truncates few most) where
  toOperational := operational
  weaken hx := hx
  andThen := operational.bind
  sleepFor hx := by
    have hbegin : Truncates few most Unit (Run.change Machine.beginSleep) := change (fun _ => rfl) fun _ => rfl
    have hend : Truncates few most Unit (Run.change Machine.endSleep) := change (fun _ => rfl) fun _ => rfl
    exact operational.bind hbegin fun _ => operational.bind hx fun d =>
      operational.bind hend fun _ => capture hlt d none
  switchAll on := by
    have hfill : Truncates few most Unit (Run.change fun m => { m with channels := m.channels.fill on }) :=
      change (fun _ => rfl) fun _ => rfl
    exact operational.bind (operational.query .baseDelay) fun d => operational.bind hfill fun _ =>
      capture hlt d (some (switchLabel on))

/-- **Truncation.**  What a run does under two caps is the same until a frame is refused, and the frames are the same
as far as the smaller cap goes. -/
theorem lawful (hlt : few < most) : Lawful (Truncates few most) (Truncates few most) where
  toActive := active hlt
  ticked hx hy := by
    have htick : Truncates few most Bool Machine.tick := of_recorder Machine.recorder_tick fun m => m.tick_withCap most
    refine operational.bind htick fun answer => ?_
    cases answer with
    | true => exact hx
    | false => exact hy
  inLoop credit l x hx := by
    have hpush : Truncates few most Unit (Run.change fun m => (m.grant credit).pushLoop l) :=
      change (fun m => (m.grant credit).recorder_modifyCurrent _) fun m => (m.grant credit).modifyCurrent_withCap most _
    have hpop : Truncates few most Unit (Run.change Machine.popLoop) :=
      change (fun m => m.recorder_modifyCurrent _) fun m => m.modifyCurrent_withCap most _
    exact operational.bind hpush fun _ => operational.bind hx fun flow =>
      operational.bind hpop fun _ => operational.pure flow
  learn _ _ := change (fun _ => rfl) fun _ => rfl
  inCall _ hx := by
    have hpush (a : Activation) : Truncates few most Unit (Run.change fun m => m.pushCall a) :=
      change (fun _ => rfl) fun _ => rfl
    have hpop : Truncates few most Unit (Run.change Machine.popCall) := change (fun _ => rfl) fun _ => rfl
    exact operational.bind (hpush _) fun _ => operational.bind hx fun flow =>
      operational.bind hpop fun _ => operational.pure flow
  exhaust := change (fun _ => rfl) fun _ => rfl

end Truncates

/-! ### What frames cost -/

/-- The frames that were captured, with the first one that was refused. -/
def Machine.offered (m : Machine) : Nat := m.recorder.frames.size + m.recorder.truncated.toNat

/-- All frames but `owed` that were captured in between are paid for by work that was admitted in between. -/
def Paid (owed : Nat) (m n : Machine) : Prop :=
  n.offered + m.answers.count true ≤ m.offered + n.answers.count true + owed

namespace Paid

variable {owed : Nat} {m n o : Machine}

/-- Only the recorder and the answers matter. -/
theorem of_eq (hr : n.recorder = m.recorder) (ha : n.answers = m.answers) : Paid owed m n := by
  unfold Paid Machine.offered
  rw [hr, ha]
  exact Nat.le_add_right _ _

theorem trans {owed' : Nat} (hmn : Paid owed m n) (hno : Paid owed' n o) : Paid (owed + owed') m o := by
  unfold Paid at *
  omega

theorem modifyCurrent (m : Machine) (g : Activation → Activation) : Paid 0 m (m.modifyCurrent g) := by
  obtain ⟨calls, root, hg⟩ := m.modifyCurrent_eq g
  rw [hg]
  exact of_eq rfl rfl

theorem capture (m : Machine) (d : Duration) (label : Option String) : Paid 1 m (m.capture d label) := by
  obtain ⟨halt, hc⟩ := m.capture_eq d label
  rw [hc]
  simp only [Paid, Machine.offered]
  rcases Nat.lt_or_ge m.recorder.frames.size m.recorder.cap with hlt | hge
  · rw [Recorder.capture_of_lt _ _ _ _ hlt]
    simp only [Array.size_push]
    omega
  · rw [Recorder.capture_of_le _ _ _ _ hge]
    simp only [Bool.toNat_true]
    omega

theorem editStep : EditStep (Paid 0) where
  refl _ := of_eq rfl rfl
  trans := trans
  edit m hf := by
    obtain ⟨channels, calls, root, arrays, generator, failed, -, hm⟩ := hf.spec m
    rw [hm]
    exact of_eq rfl rfl

theorem active : Active (Keeps (Paid 0)) (Keeps (Paid 1)) where
  toOperational := editStep.operational
  weaken hx m := Nat.le_succ_of_le (hx m)
  andThen hx hf m := (hx m).trans (hf _ _)
  sleepFor {x} hx m := by
    have hbegin : Paid 0 m m.beginSleep := of_eq rfl rfl
    have hdelay : Paid 0 m.beginSleep (x m.beginSleep).2 := hx m.beginSleep
    have hend : Paid 0 (x m.beginSleep).2 (x m.beginSleep).2.endSleep := of_eq rfl rfl
    exact ((hbegin.trans hdelay).trans hend).trans (capture _ _ none)
  switchAll on m := by
    have hfill : Paid 0 m { m with channels := m.channels.fill on } := of_eq rfl rfl
    exact hfill.trans (capture _ m.baseDelay (some (switchLabel on)))

/-- Work that is admitted pays for one frame. -/
theorem ticked {α : Type} {x y : Run α} (hx : Keeps (Paid 1) _ x) (hy : Keeps (Paid 0) _ y) :
    Keeps (Paid 0) _ (do if ← Machine.tick then x else y) := by
  intro m
  show Paid 0 m ((if m.tick.1 then x else y) m.tick.2).2
  rcases m.tick_cases with ⟨-, e⟩ | ⟨-, -, e⟩ | ⟨-, -, e⟩ <;> rw [e]
  · exact hy m
  · have hrest := hy m.tick.2
    rw [e] at hrest
    simpa [Paid, Machine.offered] using hrest
  · have hrest := hx m.tick.2
    rw [e] at hrest
    simp only [Paid, Machine.offered, List.count_cons_self, if_true] at hrest ⊢
    omega

/-- **Frames cost work.**  Every frame of a run is paid for by a unit of work of its own. -/
theorem lawful : Lawful (Keeps (Paid 0)) (Keeps (Paid 1)) where
  toActive := active
  ticked := ticked
  inLoop credit l x hx m := by
    have hgrant : Paid 0 m (m.grant credit) := of_eq rfl rfl
    have hpasses := hx ((m.grant credit).pushLoop l)
    exact ((hgrant.trans (modifyCurrent _ _)).trans hpasses).trans (modifyCurrent _ _)
  learn _ _ _ := of_eq rfl rfl
  inCall {a _} _ hx m := by
    have hpush : Paid 0 m (m.pushCall a) := of_eq rfl rfl
    have hpop (n : Machine) : Paid 0 n n.popCall := of_eq rfl rfl
    exact (hpush.trans (hx (m.pushCall a))).trans (hpop _)
  exhaust _ := of_eq rfl rfl

end Paid

end RunningLights.Procedure

namespace RunningLights.Simulation

open Procedure

variable {total : Nat} {baseDelay : Duration} {limits : RunLimits} {commands : List Command}

/-- The frames that a run records under a cap are those of a run with a greater cap, as far as the cap goes, and it is
marked if that run has more. -/
theorem recorder_of_frameCap {few most : Nat} (hlt : few < most) :
    (finalMachine total baseDelay { limits with frameCap := few } commands).recorder.frames.toList =
      (finalMachine total baseDelay { limits with frameCap := most } commands).recorder.frames.toList.take few ∧
    ((finalMachine total baseDelay { limits with frameCap := few } commands).recorder.truncated = true ↔
      few < (finalMachine total baseDelay { limits with frameCap := most } commands).recorder.frames.size) := by
  have hstart : Whole few (.start total baseDelay few (workLimit limits commands.length) limits.seed) :=
    ⟨rfl, Nat.zero_le _, rfl⟩
  have hmost : finalMachine total baseDelay { limits with frameCap := most } commands =
      (runProgram (.ofCommands commands) (Machine.withCap
        (.start total baseDelay few (workLimit limits commands.length) limits.seed) most)).2 := rfl
  rcases ((Truncates.lawful hlt).program (.ofCommands commands)).2 _ hstart with ⟨hwhole, hsame⟩ | hcut
  · rw [hmost, hsame]
    have hle : (finalMachine total baseDelay { limits with frameCap := few } commands).recorder.frames.size ≤ few :=
      hwhole.atMost
    refine ⟨(List.take_of_length_le hle).symm, fun h => ?_, fun h => absurd h (Nat.not_lt.2 hle)⟩
    exact absurd (hwhole.truncated.symm.trans h) nofun
  · rw [hmost]
    exact ⟨hcut.frames, fun _ => hcut.more, fun _ => hcut.truncated⟩

/-- A cap that is as great as the work that may be done refuses no frame. -/
theorem truncated_of_ceiling_le (h : max maxWork (workLimit limits commands.length) ≤ limits.frameCap) :
    (finalMachine total baseDelay limits commands).recorder.truncated = false := by
  have hpaid := Paid.lawful.program (.ofCommands commands)
    (.start total baseDelay limits.frameCap (workLimit limits commands.length) limits.seed)
  have hwork := (Accounted.step _).run (.ofCommands commands) _
    (.start total baseDelay limits.frameCap (workLimit limits commands.length) limits.seed)
  have hrecorded := recorded_finalMachine total baseDelay limits commands
  change Paid 0 _ (finalMachine total baseDelay limits commands) at hpaid
  change Accounted _ (finalMachine total baseDelay limits commands) at hwork
  generalize finalMachine total baseDelay limits commands = m at *
  cases htruncated : m.recorder.truncated with
  | false => rfl
  | true =>
    have hfull := hrecorded.full htruncated
    have hadmitted := hwork.admitted
    simp only [Paid, Machine.offered, htruncated, Bool.toNat_true, Machine.start, List.count_nil, Recorder.empty,
      Bool.toNat_false, List.size_toArray, List.length_nil] at hpaid
    omega

/-- A report shows the frames of a run as far as a cap goes, if the run has recorded those. -/
theorem shownFrames_take {few : Nat} (hf : 1 ≤ few) {frames frames' : Array Frame}
    (h : frames.toList = frames'.toList.take few) :
    shownFrames total baseDelay frames = (shownFrames total baseDelay frames').take few := by
  have hempty : frames.isEmpty = frames'.isEmpty := by
    have hlength := congrArg List.length h
    rw [List.length_take, Array.length_toList, Array.length_toList] at hlength
    simp only [Array.isEmpty]
    exact decide_eq_decide.2 (by omega)
  unfold shownFrames
  rw [hempty]
  split
  · rw [List.take_of_length_le hf]
  · exact h

/-- A cap that is not zero leaves a report with more frames than that exactly if the run has recorded more. -/
theorem lt_length_shownFrames {few : Nat} (hf : 1 ≤ few) (frames : Array Frame) :
    few < (shownFrames total baseDelay frames).length ↔ few < frames.size := by
  unfold shownFrames
  split
  · rename_i hempty
    have hzero : frames.size = 0 := Array.isEmpty_iff_size_eq_zero.1 hempty
    rw [List.length_singleton]
    omega
  · exact Iff.rfl

/-- **The frame cap.**  A run shows the first frames of what it shows under a greater cap, as many as its cap allows;
and if the greater one is as great as the work that may be done, it refuses no frame, and the run is marked exactly if
it would show more. -/
theorem frames_of_frameCap {few most : Nat} (hf : 1 ≤ few) (hle : few ≤ most) :
    (ofCommands total baseDelay { limits with frameCap := few } commands).frames =
      (ofCommands total baseDelay { limits with frameCap := most } commands).frames.take few ∧
    (max maxWork (workLimit limits commands.length) ≤ most →
      (ofCommands total baseDelay { limits with frameCap := most } commands).truncated = false ∧
      ((ofCommands total baseDelay { limits with frameCap := few } commands).truncated = true ↔
        few < (ofCommands total baseDelay { limits with frameCap := most } commands).frames.length)) := by
  have hunbounded (h : max maxWork (workLimit limits commands.length) ≤ most) :
      (ofCommands total baseDelay { limits with frameCap := most } commands).truncated = false :=
    truncated_of_ceiling_le h
  rcases Nat.lt_or_eq_of_le hle with hlt | rfl
  · obtain ⟨hframes, htruncated⟩ := @recorder_of_frameCap total baseDelay limits commands few most hlt
    refine ⟨shownFrames_take hf hframes, fun h => ⟨hunbounded h, htruncated.trans ?_⟩⟩
    exact (lt_length_shownFrames hf _).symm
  · have hmost := (presentable_ofCommands total baseDelay { limits with frameCap := few } commands).atMost
    have hlength : (ofCommands total baseDelay { limits with frameCap := few } commands).frames.length ≤ few := by
      simp only at hmost
      omega
    refine ⟨(List.take_of_length_le hlength).symm, fun h => ⟨hunbounded h, ?_⟩⟩
    rw [hunbounded h]
    exact ⟨nofun, fun hmore => absurd hmore (Nat.not_lt.2 hlength)⟩

/-- A program that lights the strip, darkens it and sleeps. -/
def flash : List Command := [.act .allOn, .act .allOff, .act (.sleep none)]

theorem frames_of_frameCap_flash :
    1 ≤ 2 ∧ 2 ≤ 250000 ∧
    (ofCommands 8 (.ofMillis 30) ⟨10, 2, 0⟩ flash).frames =
      (ofCommands 8 (.ofMillis 30) ⟨10, 250000, 0⟩ flash).frames.take 2 ∧
    (ofCommands 8 (.ofMillis 30) ⟨10, 2, 0⟩ flash).truncated = true := by
  obtain ⟨hframes, hmore⟩ := @frames_of_frameCap 8 (.ofMillis 30) ⟨10, 2, 0⟩ flash 2 250000 (by decide) (by decide)
  have hlong : 2 < (ofCommands 8 (.ofMillis 30) ⟨10, 250000, 0⟩ flash).frames.length := by decide +kernel
  exact ⟨by decide, by decide, hframes, (hmore (by decide)).2.2 hlong⟩

end RunningLights.Simulation
