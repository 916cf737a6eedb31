import RunningLights.Procedure.Simulation
import RunningLights.Proofs.Run.Relation

/-!
# Every run comes to its end

Whatever its loops and calls do, a run is complete and does bounded work:

* `LastsAt` — at a depth of calls, a computation gives back all calls, adds no work that may still be admitted, and
  uses up no fuel.  A loop that is tested at its end has fuel for every pass that may be admitted, and a call for
  every call that may become active;
* `Accounted` — the work that is admitted stays below the ceiling, and the first refusal is the last answer;
* `Frozen` — a machine that has halted starts no statement and no pass of a loop;
* `Simulation.governed_run` — all this for the run of any commands.
-/

namespace RunningLights.Procedure

/-! ### What a computation uses up -/

namespace Machine

variable (m : Machine)

theorem length_modifyCurrent (g : Activation → Activation) : (m.modifyCurrent g).calls.length = m.calls.length := by
  unfold modifyCurrent
  split
  · rfl
  · rename_i h
    rw [h]
    rfl

end Machine

/-- As many calls are active, no more work is left, and no fuel has been used up. -/
structure Lasts (m n : Machine) : Prop where
  calls : n.calls.length = m.calls.length
  workLeft : n.workLeft ≤ m.workLeft
  exhausted : n.exhausted = m.exhausted

theorem Lasts.refl (m : Machine) : Lasts m m := ⟨rfl, Nat.le_refl _, rfl⟩

theorem Lasts.trans {m n o : Machine} (h : Lasts m n) (k : Lasts n o) : Lasts m o :=
  ⟨k.calls.trans h.calls, Nat.le_trans k.workLeft h.workLeft, k.exhausted.trans h.exhausted⟩

theorem lasts_modifyCurrent (m : Machine) (g : Activation → Activation) : Lasts m (m.modifyCurrent g) := by
  have hcalls := m.length_modifyCurrent g
  obtain ⟨calls, root, hg⟩ := m.modifyCurrent_eq g
  rw [hg] at hcalls ⊢
  exact ⟨hcalls, Nat.le_refl _, rfl⟩

theorem lasts_capture (m : Machine) (d : Duration) (label : Option String) : Lasts m (m.capture d label) := by
  obtain ⟨halt, hc⟩ := m.capture_eq d label
  rw [hc]
  exact ⟨rfl, Nat.le_refl _, rfl⟩

theorem lasts_tick (m : Machine) : Lasts m m.tick.2 := by
  rcases m.tick_cases with ⟨-, e⟩ | ⟨-, -, e⟩ | ⟨-, -, e⟩ <;> rw [e]
  · exact .refl m
  all_goals
    refine ⟨rfl, ?_, rfl⟩
    simp only [Machine.workLeft]
    omega

/-- The same with `depth` active calls. -/
def LastsAt (depth : Nat) (m n : Machine) : Prop := m.calls.length = depth → Lasts m n

namespace LastsAt

variable {depth : Nat}

theorem workStep (depth : Nat) : WorkStep (LastsAt depth) where
  refl m _ := .refl m
  trans hmn hno h := (hmn h).trans (hno ((hmn h).calls.trans h))
  edit m hf _ := by
    have hcalls := (hf.sameShape m).length
    obtain ⟨channels, calls, root, arrays, generator, failed, -, hm⟩ := hf.spec m
    rw [hm] at hcalls ⊢
    exact ⟨hcalls, Nat.le_refl _, rfl⟩
  sleep {m n} d _ hn h := by
    have hs : Lasts m n.endSleep := ⟨(hn h).calls, (hn h).workLeft, (hn h).exhausted⟩
    exact hs.trans (lasts_capture _ d none)
  switchAll {m} on _ _ := by
    have hf : Lasts m { m with channels := m.channels.fill on } := ⟨rfl, Nat.le_refl _, rfl⟩
    exact hf.trans (lasts_capture _ m.baseDelay (some (switchLabel on)))
  tick m _ := lasts_tick m
  loop {m n} credit l hn h := by
    have hg : Lasts m (m.grant credit) := by
      refine ⟨rfl, ?_, rfl⟩
      simp only [Machine.workLeft, Machine.grant]
      omega
    have hp : Lasts m ((m.grant credit).pushLoop l) := hg.trans (lasts_modifyCurrent _ _)
    exact (hp.trans (hn (hp.calls.trans h))).trans (lasts_modifyCurrent n _)
  learn _ _ _ _ := ⟨rfl, Nat.le_refl _, rfl⟩

/-! ### Loops that are tested at their end -/

/-- The computation lasts, if it starts with less than `fuel` work left. -/
def Fuelled (depth fuel : Nat) (m n : Machine) : Prop := m.workLeft < fuel → LastsAt depth m n

theorem fuelled (depth fuel : Nat) : EditStep (Fuelled depth fuel) where
  refl m _ _ := .refl m
  trans hmn hno hf h := by
    have hl := hmn hf h
    exact hl.trans (hno (Nat.lt_of_le_of_lt hl.workLeft hf) (hl.calls.trans h))
  edit m hf _ := (workStep depth).edit m hf

/-- Work that is admitted pays for one unit of fuel. -/
theorem ticked {α : Type} {fuel : Nat} {x y : Run α} (hx : Keeps (Fuelled depth fuel) _ x)
    (hy : Keeps (Fuelled depth (fuel + 1)) _ y) :
    Keeps (Fuelled depth (fuel + 1)) _ (do if ← Machine.tick then x else y) := by
  intro m hf h
  have ht : Lasts m m.tick.2 := lasts_tick m
  show Lasts m ((if m.tick.1 then x else y) m.tick.2).2
  rcases m.tick_cases with ⟨-, e⟩ | ⟨-, -, e⟩ | ⟨-, hle, e⟩ <;> rw [e] at ht ⊢
  · exact hy m hf h
  · exact ht.trans (hy _ (Nat.lt_of_le_of_lt ht.workLeft hf) h)
  · refine ht.trans (hx _ ?_ h)
    simp only [Machine.workLeft] at hf ⊢
    omega

theorem testedPasses {body : Run Flow} {again : Run Bool} (hb : Keeps (LastsAt depth) _ body)
    (ha : Keeps (LastsAt depth) _ again) : ∀ fuel, Keeps (Fuelled depth fuel) _ (testedPasses body again fuel)
  | 0 => fun _ hf => by cases hf
  | fuel + 1 => by
    refine (fuelled depth _).operational.bind (fun m _ => hb m) fun flow => ?_
    cases flow with
    | normal =>
      refine ticked ((fuelled depth _).operational.bind (fun m _ => ha m) fun more => ?_)
        ((fuelled depth _).operational.pure Flow.halt)
      split
      · exact testedPasses hb ha fuel
      · exact (fuelled depth _).operational.pure Flow.normal
    | _ => exact (fuelled depth _).operational.pure _

theorem working (depth : Nat) : Working (Keeps (LastsAt depth)) (KeepsLive (LastsAt depth)) where
  toTicking := (workStep depth).ticking
  runTested hb ha m := testedPasses hb ha (m.workLeft + 1) m (Nat.lt_succ_self _)

/-! ### Calls -/

theorem inCall (a : Activation) {x : Run Flow} (hx : Keeps (LastsAt (depth + 1)) _ x) :
    Keeps (LastsAt depth) _ (inCall a x) := by
  intro m h
  have hl : Lasts (m.pushCall a) (x (m.pushCall a)).2 := hx _ (congrArg (· + 1) h)
  show Lasts m (x (m.pushCall a)).2.popCall
  refine ⟨?_, hl.workLeft, hl.exhausted⟩
  rw [Machine.popCall, List.length_tail, hl.calls]
  rfl

/-- A call that would be one too many is refused. -/
theorem invoke_of_le {m : Machine} (h : maxCalls ≤ m.calls.length) (fuel : Nat) (f : Closure) (args : List Arg) :
    (invoke (fuel + 1) f args).run m = (.error .callDepth, m) := by
  have hdepth : (Eval.read fun m => .ok m.calls.length).run m = (.ok m.calls.length, m) := rfl
  rw [Procedure.invoke, ExceptT.run_bind, bind_of_eq hdepth]
  show (if maxCalls ≤ m.calls.length then _ else _ : Eval Value).run m = _
  rw [if_pos h]
  rfl

/-- The calls that may still become active have fuel, from every depth. -/
theorem invoke : ∀ {fuel depth : Nat}, depth + fuel = maxCalls → ∀ (f : Closure) (args : List Arg),
    (∀ a ∈ args, Keeps (LastsAt depth) _ a.value.run) → Keeps (LastsAt depth) _ (invoke (fuel + 1) f args).run
  | 0, depth, hd, f, args, ha => fun m h => by
    rw [invoke_of_le (by omega)]
    exact .refl m
  | fuel + 1, depth, hd, f, args, ha => by
    have h := (working depth).toOperational
    refine h.evalBind (h.evalRead .depth .ok) fun _ => ?_
    split
    · exact h.settle _
    · refine h.evalBind (h.bindParams _ ha) fun a => ?_
      have h' := working (depth + 1)
      have hbody : Keeps (LastsAt depth) _ (runBody (environment (Procedure.invoke (fuel + 1))) f.body a) := by
        refine h.bind (inCall a (h'.block (h'.environment (invoke (by omega))) f.body)) fun flow => ?_
        split <;> exact h.pure _
      exact h.bind hbody fun v => h.pure (Except.ok v)

theorem program (p : Program) : Keeps (LastsAt 0) _ (runProgram p) :=
  (working 0).program (invoke (Nat.zero_add _)) p

end LastsAt

/-! ### The work that is admitted -/

/-- The limit stays below the ceiling and the work that has been admitted below the limit, and only the last answer is
a refusal, which halts the run. -/
structure Accounted (ceiling : Nat) (m : Machine) : Prop where
  top : max maxWork m.limit = ceiling
  admitted : m.answers.count true ≤ ceiling
  live : m.limitHit = false → m.answers = List.replicate m.work true
  hit : m.limitHit = true → m.halted = true ∧ ∃ n, m.answers = false :: List.replicate n true

namespace Accounted

variable {ceiling : Nat} {m n : Machine}

/-- Only the account matters, and that a run that has halted does not live again. -/
theorem congr (h : Accounted ceiling m) (hl : max maxWork n.limit = max maxWork m.limit)
    (ha : n.answers = m.answers) (hw : n.work = m.work) (hh : n.limitHit = m.limitHit)
    (hs : m.halted = true → n.halted = true) : Accounted ceiling n := by
  obtain ⟨top, admitted, live, hit⟩ := h
  rw [← ha] at admitted live hit
  rw [← hw, ← hh] at live
  rw [← hh] at hit
  exact ⟨hl.trans top, admitted, live, fun h => ⟨hs (hit h).1, (hit h).2⟩⟩

theorem modifyCurrent (h : Accounted ceiling m) (g : Activation → Activation) :
    Accounted ceiling (m.modifyCurrent g) := by
  obtain ⟨calls, root, hg⟩ := m.modifyCurrent_eq g
  rw [hg]
  exact h.congr rfl rfl rfl rfl id

theorem capture (h : Accounted ceiling m) (d : Duration) (label : Option String) :
    Accounted ceiling (m.capture d label) := by
  have hs : m.halted = true → (m.capture d label).halted = true := fun hm => Machine.halted_capture hm d label
  obtain ⟨halt, hc⟩ := m.capture_eq d label
  rw [hc] at hs ⊢
  exact h.congr rfl rfl rfl rfl hs

theorem limitHit_of_live (h : Accounted ceiling m) (hm : m.halted = false) : m.limitHit = false := by
  cases hh : m.limitHit with
  | false => rfl
  | true => exact absurd ((h.hit hh).1.symm.trans hm) nofun

theorem tick (h : Accounted ceiling m) : Accounted ceiling m.tick.2 := by
  rcases m.tick_cases with ⟨-, e⟩ | ⟨hm, -, e⟩ | ⟨hm, hle, e⟩ <;> rw [e]
  · exact h
  · have hlive := h.limitHit_of_live hm
    refine ⟨h.top, ?_, nofun, fun _ => ⟨rfl, m.work, congrArg _ (h.live hlive)⟩⟩
    simpa using h.admitted
  · have hlive := h.limitHit_of_live hm
    have ha : true :: m.answers = List.replicate (m.work + 1) true := by
      rw [h.live hlive, List.replicate_succ]
    refine ⟨h.top, ?_, fun _ => ha, fun hh => absurd (hlive.symm.trans hh) nofun⟩
    have htop := h.top
    simp only [ha, List.count_replicate_self]
    omega

theorem step (ceiling : Nat) : Step fun m n => Accounted ceiling m → Accounted ceiling n where
  refl _ h := h
  trans hmn hno h := hno (hmn h)
  edit m hf h := by
    obtain ⟨channels, calls, root, arrays, generator, failed, -, hm⟩ := hf.spec m
    rw [hm]
    exact h.congr rfl rfl rfl rfl id
  sleep {m n} d _ hn h := by
    have he : Accounted ceiling n.endSleep := (hn (h.congr rfl rfl rfl rfl id)).congr rfl rfl rfl rfl id
    exact he.capture d none
  switchAll {m} on _ h := by
    have hf : Accounted ceiling { m with channels := m.channels.fill on } := h.congr rfl rfl rfl rfl id
    exact hf.capture m.baseDelay _
  tick _ h := h.tick
  loop {m n} credit l hn h := by
    have hg : Accounted ceiling (m.grant credit) := by
      refine h.congr ?_ rfl rfl rfl id
      simp only [Machine.grant]
      omega
    exact (hn (hg.modifyCurrent _)).modifyCurrent _
  learn _ name f h := h.congr rfl rfl rfl rfl id
  call a hn h := (hn (h.congr rfl rfl rfl rfl id)).congr rfl rfl rfl rfl id
  exhaust _ h := h.congr rfl rfl rfl rfl id

theorem start (total : Nat) (baseDelay : Duration) (most limit seed : Nat) :
    Accounted (max maxWork limit) (.start total baseDelay most limit seed) where
  top := rfl
  admitted := Nat.zero_le _
  live _ := rfl
  hit h := by cases h

end Accounted

/-! ### What has halted -/

/-- Work is refused, and no statement and no pass of a loop is started: nothing changes. -/
structure Frozen (m : Machine) : Prop where
  tick : m.tick = (false, m)
  block (env : Environment Eval) (s : Stmt) (ss : List Stmt) : execBlock env (s :: ss) m = (.halt, m)
  counted (body : Run Flow) (valueAt : Nat → Int64) (left k : Nat) :
    countedPasses body valueAt (left + 1) k m = (.halt, m)
  tested (env : Environment Eval) (ss : List Stmt) (again : Run Bool) (fuel : Nat) :
    testedPasses (execBlock env ss) again (fuel + 1) m = (.halt, m)

theorem frozen_of_halted {m : Machine} (hm : m.halted = true) : Frozen m := by
  have hblock (env : Environment Eval) (s : Stmt) (ss : List Stmt) : execBlock env (s :: ss) m = (.halt, m) := by
    rw [execBlock, ticked_of_halted hm]
    rfl
  refine ⟨Machine.tick_of_halted hm, hblock, fun body valueAt left k => ?_, fun env ss again fuel => ?_⟩
  · rw [countedPasses, ticked_of_halted hm]
    rfl
  · rw [testedPasses]
    cases ss with
    | nil =>
      have hnil : execBlock env [] m = (.normal, m) := by
        rw [execBlock]
        rfl
      rw [bind_of_eq hnil]
      exact ticked_of_halted hm
    | cons s ss =>
      rw [bind_of_eq (hblock env s ss)]
      rfl

end RunningLights.Procedure

namespace RunningLights.Simulation

open Procedure

/-- A run that ends in the state `m`, and its report: all loops and calls of it have come to their own ends, at most
`most` units of work were admitted, and after the first refusal none was asked for any more. -/
structure Governed (most : Nat) (m : Machine) (r : SimulationReport) : Prop where
  complete : m.exhausted = false
  admitted : m.answers.count true ≤ most
  executed : r.executed ≤ most
  last : m.limitHit = true → ∃ n, m.answers = false :: List.replicate n true

/-- **Every run ends.**  The run of any commands under any limits is complete, the work that it is admitted and the
work that it reports stay below the ceiling, and a machine that was refused work has halted and starts no statement
and no pass of a loop any more. -/
theorem governed_run (total : Nat) (baseDelay : Duration) (limits : RunLimits) (commands : List Command) :
    Governed (max maxWork (limits.workFactor * commands.length)) (finalMachine total baseDelay limits commands)
      (ofCommands total baseDelay limits commands) ∧
    ∀ m : Machine, m.tick.1 = false → m.tick.2.halted = true ∧ Frozen m.tick.2 := by
  refine ⟨?_, fun m hm => ?_⟩
  · have hacc : Accounted (max maxWork (workLimit limits commands.length))
        (finalMachine total baseDelay limits commands) := (Accounted.step _).run _ _ (.start _ _ _ _ _)
    have hlast : Lasts (.start total baseDelay limits.frameCap (workLimit limits commands.length) limits.seed)
        (finalMachine total baseDelay limits commands) := LastsAt.program _ _ rfl
    have hle : max maxWork (workLimit limits commands.length) ≤ max maxWork (limits.workFactor * commands.length) := by
      unfold workLimit
      omega
    refine ⟨hlast.exhausted, Nat.le_trans hacc.admitted hle, ?_, fun h => (hacc.hit h).2⟩
    have htop := hacc.top
    show min (finalMachine total baseDelay limits commands).work _ ≤ _
    omega
  · have hh : m.tick.2.halted = true := by
      rcases m.tick_cases with ⟨hm', e⟩ | ⟨-, -, e⟩ | ⟨-, -, e⟩ <;> rw [e] at hm ⊢
      · exact hm'
      · rfl
      · cases hm
    exact ⟨hh, frozen_of_halted hh⟩

/-- A loop that never ends by itself is ended by the limit. -/
example : (ofCommands 1 (.ofMillis 30) ⟨10, 9, 0⟩ [.doStart, .doEnd (some (.ofWord 1))]).executed = 20 := by
  decide +kernel

end RunningLights.Simulation
