import RunningLights.Proofs.Run.Reach

/-!
# The work that is reported

A run reports its counter of work, cut off at its limit.  The unit that was refused is counted too, and the limit may
still be raised behind it: by a counted loop whose header called the function in which the limit was reached.

* `Unasked`, `Change.unasked` — the changes that ask for no work;
* `Tallied` — until work is refused, the counter is the number of units that were admitted, and within the limit;
* `RefusedAt`, `exists_refusedAt` — the state of a run in which work was refused;
* `Simulation.executed_of_admitted` — the report counts what was admitted, and one unit more exactly if the limit was
  raised after the refusal.
-/

namespace RunningLights.Procedure

variable {m n o : Machine}

/-- No work was asked for, and the limit was at most raised, as far as the ceiling allows. -/
structure Unasked (m n : Machine) : Prop where
  answers : n.answers = m.answers
  work : n.work = m.work
  limitHit : n.limitHit = m.limitHit
  raised : m.limit ≤ n.limit
  ceiling : max maxWork n.limit = max maxWork m.limit
  halted : m.halted = true → n.halted = true

namespace Unasked

/-- Only the account matters, and where the run has halted. -/
theorem of_eq (ha : n.answers = m.answers) (hw : n.work = m.work) (hh : n.limitHit = m.limitHit)
    (hl : n.limit = m.limit) (hs : n.halt = m.halt) : Unasked m n where
  answers := ha
  work := hw
  limitHit := hh
  raised := Nat.le_of_eq hl.symm
  ceiling := congrArg (max maxWork) hl
  halted hm := (congrArg Option.isSome hs).trans hm

theorem trans (hmn : Unasked m n) (hno : Unasked n o) : Unasked m o where
  answers := hno.answers.trans hmn.answers
  work := hno.work.trans hmn.work
  limitHit := hno.limitHit.trans hmn.limitHit
  raised := Nat.le_trans hmn.raised hno.raised
  ceiling := hno.ceiling.trans hmn.ceiling
  halted h := hno.halted (hmn.halted h)

theorem modifyCurrent (m : Machine) (g : Activation → Activation) : Unasked m (m.modifyCurrent g) := by
  obtain ⟨calls, root, hg⟩ := m.modifyCurrent_eq g
  rw [hg]
  exact of_eq rfl rfl rfl rfl rfl

theorem capture (m : Machine) (d : Duration) (label : Option String) : Unasked m (m.capture d label) := by
  have hs : m.halted = true → (m.capture d label).halted = true := fun hm => Machine.halted_capture hm d label
  obtain ⟨halt, hc⟩ := m.capture_eq d label
  rw [hc] at hs ⊢
  exact ⟨rfl, rfl, rfl, Nat.le_refl _, rfl, hs⟩

theorem grant (m : Machine) (credit : Nat) : Unasked m (m.grant credit) := by
  refine ⟨rfl, rfl, rfl, ?_, ?_, id⟩ <;> simp only [Machine.grant] <;> omega

end Unasked

/-- Every elementary change but one asks for no work. -/
theorem Change.unasked (h : Change m n) : Unasked m n ∨ n = m.tick.2 := by
  cases h with
  | edit hf =>
    obtain ⟨channels, calls, root, arrays, generator, failed, -, hm⟩ := hf.spec m
    rw [hm]
    exact .inl (.of_eq rfl rfl rfl rfl rfl)
  | capture d label => exact .inl (.capture m d label)
  | tick => exact .inr rfl
  | grant credit => exact .inl (.grant m credit)
  | pushLoop l => exact .inl (.modifyCurrent m _)
  | popLoop => exact .inl (.modifyCurrent m _)
  | _ => exact .inl (.of_eq rfl rfl rfl rfl rfl)

/-- A run that has halted is not asked for work any more. -/
theorem Reaches.unasked (h : Reaches m n) (hm : m.halted = true) : Unasked m n := by
  induction h with
  | refl => exact .of_eq rfl rfl rfl rfl rfl
  | tail _ hc ih =>
    rcases hc.unasked with hu | rfl
    · exact ih.trans hu
    · rw [Machine.tick_of_halted (ih.halted hm)]
      exact ih

/-! ### Until work is refused -/

/-- The counter of work against the answers that were given.  Where work was refused, the run has halted. -/
structure Tallied (m : Machine) : Prop where
  admitted : m.limitHit = false → m.answers = List.replicate m.work true
  within : m.limitHit = false → m.work ≤ m.limit
  hit : m.limitHit = true → m.halted = true

namespace Tallied

theorem live (h : Tallied m) (hm : m.halted = false) : m.limitHit = false := by
  cases hh : m.limitHit with
  | false => rfl
  | true => exact absurd ((h.hit hh).symm.trans hm) nofun

theorem unasked (h : Tallied m) (hu : Unasked m n) : Tallied n where
  admitted hn := by
    rw [hu.answers, hu.work]
    exact h.admitted (hu.limitHit ▸ hn)
  within hn := by
    rw [hu.work]
    exact Nat.le_trans (h.within (hu.limitHit ▸ hn)) hu.raised
  hit hn := hu.halted (h.hit (hu.limitHit ▸ hn))

theorem tick (h : Tallied m) : Tallied m.tick.2 := by
  rcases m.tick_cases with ⟨-, e⟩ | ⟨-, -, e⟩ | ⟨hm, hle, e⟩ <;> rw [e]
  · exact h
  · exact ⟨nofun, nofun, fun _ => rfl⟩
  · have hlive := h.live hm
    refine ⟨fun _ => ?_, fun _ => hle, fun hh => absurd (hlive.symm.trans hh) nofun⟩
    simp only [h.admitted hlive, List.replicate_succ]

theorem change (h : Tallied m) (hc : Change m n) : Tallied n := by
  rcases hc.unasked with hu | rfl
  · exact h.unasked hu
  · exact h.tick

theorem start (total : Nat) (baseDelay : Duration) (cap limit seed : Nat) :
    Tallied (.start total baseDelay cap limit seed) := ⟨fun _ => rfl, fun _ => Nat.zero_le _, nofun⟩

end Tallied

/-! ### Where work is refused -/

/-- In the state `n` a run from `m` was refused work, and it came to `o` behind that. -/
structure RefusedAt (m n o : Machine) : Prop where
  before : Reaches m n
  live : n.halted = false
  refused : n.tick.1 = false
  behind : Reaches n.tick.2 o

/-- The limit is hit by a unit of work that a live machine refuses. -/
theorem Machine.refused_of_limitHit (hm : m.limitHit = false) (hn : m.tick.2.limitHit = true) :
    m.halted = false ∧ m.tick.1 = false := by
  rcases m.tick_cases with ⟨-, e⟩ | ⟨hlive, -, e⟩ | ⟨-, -, e⟩ <;> rw [e] at hn ⊢
  · exact absurd (hm.symm.trans hn) nofun
  · exact ⟨hlive, rfl⟩
  · exact absurd (hm.symm.trans hn) nofun

/-- A run that hit its limit was refused work somewhere. -/
theorem exists_refusedAt (h : Reaches m o) (hm : m.limitHit = false) (ho : o.limitHit = true) :
    ∃ n, RefusedAt m n o := by
  induction h with
  | refl => exact absurd (hm.symm.trans ho) nofun
  | @tail k o hk hc ih =>
    cases hhit : k.limitHit with
    | true =>
      obtain ⟨n, hn⟩ := ih hhit
      exact ⟨n, hn.before, hn.live, hn.refused, hn.behind.tail hc⟩
    | false =>
      -- the limit is hit by this change, which is therefore the one that asks for work
      rcases hc.unasked with hu | rfl
      · exact absurd ((hu.limitHit.trans hhit).symm.trans ho) nofun
      · obtain ⟨hlive, hrefused⟩ := k.refused_of_limitHit hhit ho
        exact ⟨k, hk, hlive, hrefused, .refl⟩

/-- What a run that was refused work comes to: all work up to the limit of that state was admitted, and one unit more
was counted. -/
structure Overran (n o : Machine) : Prop where
  answers : o.answers = false :: List.replicate n.limit true
  work : o.work = n.limit + 1
  limitHit : o.limitHit = true
  raised : n.limit ≤ o.limit
  ceiling : max maxWork o.limit = max maxWork n.limit

theorem RefusedAt.overran (h : RefusedAt m n o) (hm : Tallied m) : Overran n o := by
  have hn : Tallied n := h.before.keeps (fun hc ht => ht.change hc) hm
  have hlive := hn.live h.live
  have hwithin := hn.within hlive
  have hrefused := h.refused
  have hbehind := h.behind
  rcases n.tick_cases with ⟨hhalted, -⟩ | ⟨-, hlt, e⟩ | ⟨-, -, e⟩
  · exact absurd (hhalted.symm.trans h.live) nofun
  · rw [e] at hbehind
    have hu := hbehind.unasked rfl
    have hwork : n.work = n.limit := by omega
    refine ⟨?_, ?_, hu.limitHit, hu.raised, hu.ceiling⟩
    · simp only [hu.answers, hn.admitted hlive, hwork]
    · simp only [hu.work, hwork]
  · rw [e] at hrefused
    cases hrefused

end RunningLights.Procedure

namespace RunningLights.Simulation

open Procedure

/-- **The reported work.**  The run of any commands reports the number of units that it was admitted, whether it came
to its end or the frame cap stopped it.  If it was refused work, the units that were admitted are those of the limit at
that time, and the report counts one more exactly if the limit has been raised since, which needs a limit below the
ceiling. -/
theorem executed_of_admitted (total : Nat) (baseDelay : Duration) (limits : RunLimits) (commands : List Command) :
    let m := finalMachine total baseDelay limits commands
    let r := ofCommands total baseDelay limits commands
    let admitted := m.answers.count true
    r.executed = admitted + (if r.limitHit ∧ admitted < m.limit then 1 else 0) ∧
    (r.limitHit = true ↔ ∃ n, RefusedAt (startMachine total baseDelay limits commands) n m) ∧
    ∀ n, RefusedAt (startMachine total baseDelay limits commands) n m →
      n.limit = admitted ∧ (maxWork ≤ n.limit → m.limit = n.limit) := by
  intro m r admitted
  have hm : Reaches (startMachine total baseDelay limits commands) m := reaches_finalMachine _ _ _ _
  have hstart : Tallied (startMachine total baseDelay limits commands) := .start _ _ _ _ _
  have htallied : Tallied m := hm.keeps (fun hc ht => ht.change hc) hstart
  have hrefused : ∀ n, RefusedAt (startMachine total baseDelay limits commands) n m →
      Overran n m ∧ n.limit = admitted := by
    intro n hn
    have ho := hn.overran hstart
    have hcount : admitted = (false :: List.replicate n.limit true).count true := congrArg (List.count true) ho.answers
    rw [List.count_cons_of_ne (by decide), List.count_replicate_self] at hcount
    exact ⟨ho, hcount.symm⟩
  have hiff : r.limitHit = true ↔ ∃ n, RefusedAt (startMachine total baseDelay limits commands) n m :=
    ⟨exists_refusedAt hm rfl, fun ⟨n, hn⟩ => (hrefused n hn).1.limitHit⟩
  refine ⟨?_, hiff, fun n hn => ⟨(hrefused n hn).2, fun hle => ?_⟩⟩
  · show min m.work m.limit = _
    cases hhit : r.limitHit with
    | false =>
      have hcount : admitted = (List.replicate m.work true).count true :=
        congrArg (List.count true) (htallied.admitted hhit)
      rw [List.count_replicate_self] at hcount
      have hwithin : m.work ≤ m.limit := htallied.within hhit
      simp only [Bool.false_eq_true, false_and, if_false]
      omega
    | true =>
      obtain ⟨n, hn⟩ := hiff.1 hhit
      obtain ⟨ho, hlimit⟩ := hrefused n hn
      have hwork := ho.work
      have hraised := ho.raised
      simp only [true_and]
      split <;> omega
  · have ho := (hrefused n hn).1
    have hraised := ho.raised
    have hceiling := ho.ceiling
    omega

/-- A counted loop whose first value is that of a function with an endless loop. -/
def endlessHeader : List Command :=
  [.functionStart "spin" [], .doStart, .doEnd (some (.ofWord 1)), .functionEnd,
    .loopStart ⟨"i", ⟨"spin()", some (.call "spin" [])⟩, .ofWord 5, false, .ofWord 1, .forward⟩, .act .allOn, .loopEnd]

theorem executed_of_admitted_endlessHeader :
    let m := finalMachine 2 (.ofMillis 30) ⟨10, 600, 0⟩ endlessHeader
    let r := ofCommands 2 (.ofMillis 30) ⟨10, 600, 0⟩ endlessHeader
    m.limit = 80 ∧ r.executed = 71 ∧
      ∃ n, RefusedAt (startMachine 2 (.ofMillis 30) ⟨10, 600, 0⟩ endlessHeader) n m ∧ n.limit = 70 := by
  intro m r
  obtain ⟨hexecuted, hiff, hlimit⟩ := executed_of_admitted 2 (.ofMillis 30) ⟨10, 600, 0⟩ endlessHeader
  have hcount : m.answers.count true = 70 := by decide +kernel
  have hm : m.limit = 80 := by decide +kernel
  have hhit : r.limitHit = true := by decide +kernel
  obtain ⟨n, hn⟩ := hiff.1 hhit
  refine ⟨hm, ?_, n, hn, (hlimit n hn).1.trans hcount⟩
  have hover : r.executed =
      m.answers.count true + (if r.limitHit = true ∧ m.answers.count true < m.limit then 1 else 0) := hexecuted
  rw [hover, hcount, hm, hhit]
  rfl

/-- A run may report more work than it was admitted. -/
theorem executed_not_admitted :
    ¬ ∀ (total : Nat) (baseDelay : Duration) (limits : RunLimits) (commands : List Command),
      (ofCommands total baseDelay limits commands).executed =
        (finalMachine total baseDelay limits commands).answers.count true := by
  intro hall
  have hcount : (finalMachine 2 (.ofMillis 30) ⟨10, 600, 0⟩ endlessHeader).answers.count true = 70 := by decide +kernel
  have hexecuted : (ofCommands 2 (.ofMillis 30) ⟨10, 600, 0⟩ endlessHeader).executed = 71 := by decide +kernel
  rw [hall, hcount] at hexecuted
  cases hexecuted

end RunningLights.Simulation
