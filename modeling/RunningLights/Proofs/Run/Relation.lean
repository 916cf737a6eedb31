import RunningLights.Proofs.Run.Lawful

/-!
# Relations between the states of a run

A computation keeps a relation if it leads from every state to a related one.  A reflexive and transitive relation
is kept by all that composes, so what a whole run keeps is a matter of the elementary changes:

* `Edit.spec` — an edit changes nothing but the channels, the calls, the variables, the arrays, the generator and
  whether the run has failed;
* `Edit.sameShape` — and as to the calls, nothing but their variables;
* `Step`, `Step.lawful` — a relation that every elementary change keeps, and its law;
* `Step.run` — the states before and after a run are related.
-/

namespace RunningLights.Procedure

variable {R : Machine → Machine → Prop}

/-- The computations that lead from every state to a related one. -/
def Keeps (R : Machine → Machine → Prop) : Law := fun _ x => ∀ m, R m (x m).2

/-- The computations that do so from every state that has not halted. -/
def KeepsLive (R : Machine → Machine → Prop) : Law := fun _ x => ∀ m, m.halted = false → R m (x m).2

/-! ### What an elementary change does -/

theorem Machine.modifyCurrent_eq (m : Machine) (g : Activation → Activation) :
    ∃ calls root, m.modifyCurrent g = { m with calls, root } := by
  unfold modifyCurrent
  split <;> exact ⟨_, _, rfl⟩

theorem Machine.setLoopVar_eq (m : Machine) (n : Int64) : ∃ calls root, m.setLoopVar n = { m with calls, root } :=
  m.modifyCurrent_eq _

theorem Edit.spec {f : Machine → Machine} (hf : Edit f) (m : Machine) :
    ∃ channels calls root arrays generator failed, channels.size = m.channels.size ∧
      f m = { m with channels, calls, root, arrays, generator, failed } := by
  have hcur : ∀ g : Activation → Activation, ∃ channels calls root arrays generator failed,
      channels.size = m.channels.size ∧
        m.modifyCurrent g = { m with channels, calls, root, arrays, generator, failed } := by
    intro g
    obtain ⟨calls, root, hg⟩ := m.modifyCurrent_eq g
    exact ⟨m.channels, calls, root, m.arrays, m.generator, m.failed, rfl, hg⟩
  cases hf with
  | assign name v =>
    simp only [Machine.assign]
    split
    · exact ⟨_, _, _, _, _, _, rfl, rfl⟩
    · exact hcur _
  | declare name kind isConst v =>
    simp only [Machine.declare, Machine.define]
    exact hcur _
  | loopVar n =>
    simp only [Machine.setLoopVar]
    exact hcur _
  | channel i on => exact ⟨_, _, _, _, _, _, Channels.size_set _ _ _, rfl⟩
  | _ => exact ⟨_, _, _, _, _, _, rfl, rfl⟩

/-! ### The calls that are active -/

/-- Storing a value changes the variables of an activation only. -/
theorem Activation.eq_of_assign? {a b : Activation} {name : String} {v : Value} (h : a.assign? name v = some b) :
    ∃ locals loops, b = { a with locals, loops } := by
  unfold Activation.assign? at h
  split at h
  · cases h
    exact ⟨_, _, rfl⟩
  · split at h
    · cases h
      exact ⟨_, _, rfl⟩
    · cases h

/-- The same functions and lambdas are active. -/
def SameShape (m n : Machine) : Prop := n.calls.map Activation.transparent = m.calls.map Activation.transparent

namespace SameShape

variable {m n o : Machine}

theorem trans (hmn : SameShape m n) (hno : SameShape n o) : SameShape m o := Eq.trans hno hmn

theorem length (h : SameShape m n) : n.calls.length = m.calls.length := by simpa using congrArg List.length h

end SameShape

namespace Machine

/-- What storing a value keeps of each activation it keeps of all of them. -/
theorem map_assignVisible {β : Type} {g : Activation → β} {name : String} {v : Value}
    (hg : ∀ {a b : Activation}, a.assign? name v = some b → g b = g a) {root root' : Activation}
    {calls calls' : List Activation} (h : assignVisible name v root calls = some (calls', root')) :
    calls'.map g = calls.map g ∧ g root' = g root := by
  induction calls generalizing calls' root' with
  | nil =>
    obtain ⟨_, hroot, heq⟩ := Option.map_eq_some_iff.1 h
    cases heq
    exact ⟨rfl, hg hroot⟩
  | cons a rest ih =>
    rw [assignVisible] at h
    split at h
    · rename_i b hb
      cases h
      exact ⟨by rw [List.map_cons, List.map_cons, hg hb], rfl⟩
    · split at h
      · obtain ⟨⟨rest', root''⟩, hrest, heq⟩ := Option.map_eq_some_iff.1 h
        cases heq
        obtain ⟨hcalls, hroot⟩ := ih hrest
        exact ⟨by rw [List.map_cons, List.map_cons, hcalls], hroot⟩
      · obtain ⟨_, hroot, heq⟩ := Option.map_eq_some_iff.1 h
        cases heq
        exact ⟨rfl, hg hroot⟩

theorem shape_assignVisible {name : String} {v : Value} {root root' : Activation} {calls calls' : List Activation}
    (h : assignVisible name v root calls = some (calls', root')) :
    calls'.map Activation.transparent = calls.map Activation.transparent := by
  refine (map_assignVisible (fun ha => ?_) h).1
  obtain ⟨_, _, rfl⟩ := Activation.eq_of_assign? ha
  rfl

theorem sameShape_modifyCurrent (m : Machine) {g : Activation → Activation}
    (hg : ∀ a : Activation, (g a).transparent = a.transparent) : SameShape m (m.modifyCurrent g) := by
  unfold SameShape modifyCurrent
  split
  · rfl
  · rename_i a rest hcalls
    rw [hcalls, List.map_cons, List.map_cons, hg]

theorem sameShape_assign (m : Machine) (name : String) (v : Value) : SameShape m (m.assign name v) := by
  unfold assign
  split
  · exact shape_assignVisible ‹_›
  · exact m.sameShape_modifyCurrent fun _ => rfl

end Machine

theorem Edit.sameShape {f : Machine → Machine} (hf : Edit f) (m : Machine) : SameShape m (f m) := by
  cases hf with
  | assign name v => exact m.sameShape_assign name v
  | declare name kind isConst v => exact m.sameShape_modifyCurrent fun _ => rfl
  | loopVar n =>
    refine m.sameShape_modifyCurrent fun a => ?_
    split <;> rfl
  | _ => rfl

/-! ### Frames and work -/

theorem Machine.stop_eq (m : Machine) : ∃ halt, m.stop = { m with halt } := by
  unfold stop
  split <;> exact ⟨_, rfl⟩

theorem Machine.capture_eq (m : Machine) (d : Duration) (label : Option String) :
    ∃ halt, m.capture d label = { m with recorder := m.recorder.capture m.channels d label, halt } := by
  unfold capture
  split
  · obtain ⟨halt, hs⟩ := m.stop_eq
    rw [hs]
    exact ⟨halt, rfl⟩
  · exact ⟨m.halt, rfl⟩

theorem Machine.capture_of_lt {m : Machine} (h : m.recorder.frames.size < m.recorder.cap) (d : Duration)
    (label : Option String) :
    m.capture d label = { m with recorder := m.recorder.capture m.channels d label } := by
  have hfull : m.recorder.isFull = false := by
    simp only [Recorder.isFull, decide_eq_false_iff_not]
    omega
  unfold capture
  rw [hfull]
  rfl

/-- A run that has halted stays so when a frame is captured. -/
theorem Machine.halted_capture {m : Machine} (hm : m.halted = true) (d : Duration) (label : Option String) :
    (m.capture d label).halted = true := by
  unfold capture stop
  simp only [hm, if_true, ite_self]
  exact hm

/-- Work beyond the limit is refused and halts the run, which fails if the work cannot be counted. -/
theorem Machine.tick_of_lt {m : Machine} (hm : m.halted = false) (h : m.limit < m.work + 1) :
    m.tick = (false,
      { m with
        work := m.work + 1, limitHit := true, answers := false :: m.answers,
        halt := some ⟨m.recorder.frames, m.sleeps⟩,
        failed := m.failed.or (WordOperation.count (m.work + 1)).failure? }) := by
  have hn : ¬ m.halted = true := by simp [hm]
  unfold tick stop
  rw [if_neg hn, if_pos h]
  exact congrArg (Prod.mk false) (if_neg hn)

theorem Machine.tick_of_le {m : Machine} (hm : m.halted = false) (h : m.work + 1 ≤ m.limit) :
    m.tick = (true, { m with work := m.work + 1, answers := true :: m.answers }) := by
  unfold tick
  rw [if_neg (by simp [hm]), if_neg (Nat.not_lt.2 h)]

theorem Machine.tick_of_halted {m : Machine} (hm : m.halted = true) : m.tick = (false, m) := by
  unfold tick
  rw [if_pos hm]

/-- All that comes of asking for work. -/
theorem Machine.tick_cases (m : Machine) :
    (m.halted = true ∧ m.tick = (false, m)) ∨
    (m.halted = false ∧ m.limit < m.work + 1 ∧ m.tick =
      (false,
        { m with
          work := m.work + 1, limitHit := true, answers := false :: m.answers,
          halt := some ⟨m.recorder.frames, m.sleeps⟩,
          failed := m.failed.or (WordOperation.count (m.work + 1)).failure? })) ∨
    (m.halted = false ∧ m.work + 1 ≤ m.limit ∧
      m.tick = (true, { m with work := m.work + 1, answers := true :: m.answers })) := by
  cases hm : m.halted with
  | true => exact .inl ⟨rfl, tick_of_halted hm⟩
  | false =>
    rcases Nat.lt_or_ge m.limit (m.work + 1) with h | h
    · exact .inr (.inl ⟨rfl, h, tick_of_lt hm h⟩)
    · exact .inr (.inr ⟨rfl, h, tick_of_le hm h⟩)

section

variable {α β : Type} {m : Machine}

theorem ticked_of_lt {x y : Run α} (hm : m.halted = false) (h : m.limit < m.work + 1) :
    (do if ← Machine.tick then x else y : Run α) m =
      y
        { m with
          work := m.work + 1, limitHit := true, answers := false :: m.answers,
          halt := some ⟨m.recorder.frames, m.sleeps⟩,
          failed := m.failed.or (WordOperation.count (m.work + 1)).failure? } := by
  show (if m.tick.1 then x else y) m.tick.2 = _
  rw [Machine.tick_of_lt hm h]
  rfl

theorem ticked_of_le {x y : Run α} (hm : m.halted = false) (h : m.work + 1 ≤ m.limit) :
    (do if ← Machine.tick then x else y : Run α) m = x { m with work := m.work + 1, answers := true :: m.answers } := by
  show (if m.tick.1 then x else y) m.tick.2 = _
  rw [Machine.tick_of_le hm h]
  rfl

theorem ticked_of_halted {x y : Run α} (hm : m.halted = true) :
    (do if ← Machine.tick then x else y : Run α) m = y m := by
  show (if m.tick.1 then x else y) m.tick.2 = _
  rw [Machine.tick_of_halted hm]
  rfl

theorem bind_of_eq {x : Run α} {f : α → Run β} {a : α} {n : Machine} (h : x m = (a, n)) : (x >>= f) m = f a n := by
  show f (x m).1 (x m).2 = _
  rw [h]

theorem run_bind_ok {x : Eval α} {f : α → Eval β} {a : α} {n : Machine} (h : x.run m = (.ok a, n)) :
    (x >>= f).run m = (f a).run n := by
  rw [ExceptT.run_bind, bind_of_eq h]

theorem run_bind_error {x : Eval α} {f : α → Eval β} {e : EvalError} {n : Machine} (h : x.run m = (.error e, n)) :
    (x >>= f).run m = (.error e, n) := by
  rw [ExceptT.run_bind, bind_of_eq h]
  rfl

theorem orElse_apply {x : Eval α} {r : Except EvalError α} {n : Machine} (h : x.run m = (r, n)) (fallback : α) :
    orElse x fallback m = (r.toOption.getD fallback, n) := by
  rw [orElse, bind_of_eq h]
  cases r <;> rfl

theorem attempt_apply {x : Eval α} {r : Except EvalError α} {n : Machine} (h : x.run m = (r, n)) :
    attempt x m = (r.toOption, n) := by
  rw [attempt, bind_of_eq h]
  cases r <;> rfl

theorem run_evalInt_ok {env : Environment Eval} {o : Operand} {i : Int64} {n : Machine}
    (h : (Operand.evalInt env o).run m = (.ok i, n)) :
    ∃ v, (Operand.eval env o).run m = (.ok v, n) ∧ v.asInt = .ok i := by
  obtain ⟨r, k, hr⟩ : ∃ r k, (Operand.eval env o).run m = (r, k) := ⟨_, _, rfl⟩
  cases r with
  | error e =>
    rw [Operand.evalInt, run_bind_error hr] at h
    cases h
  | ok v =>
    rw [Operand.evalInt, run_bind_ok hr] at h
    cases hv : v.asInt with
    | error e =>
      rw [hv] at h
      cases h
    | ok j =>
      rw [hv] at h
      cases h
      exact ⟨v, hr, hv⟩

end

/-! ### Laws from relations -/

/-- A reflexive and transitive relation that edits keep. -/
structure EditStep (R : Machine → Machine → Prop) : Prop where
  refl (m : Machine) : R m m
  trans {m n o : Machine} : R m n → R n o → R m o
  edit {f : Machine → Machine} (m : Machine) : Edit f → R m (f m)

/-- The relation is also kept by what records frames. -/
structure FrameStep (R : Machine → Machine → Prop) : Prop extends EditStep R where
  sleep {m n : Machine} (d : Duration) : m.halted = false → R m.beginSleep n → R m (n.endSleep.capture d none)
  switchAll {m : Machine} (on : Bool) : m.halted = false → R m (switchAll on m).2

/-- The relation is also kept by asking for work and by what counted loops and lambdas do. -/
structure WorkStep (R : Machine → Machine → Prop) : Prop extends FrameStep R where
  tick (m : Machine) : R m m.tick.2
  loop {m n : Machine} (credit : Nat) (l : LoopVar) : R ((m.grant credit).pushLoop l) n → R m n.popLoop
  learn (m : Machine) (name : String) (f : Closure) : R m { m with functions := m.functions.set name f }

/-- The relation is also kept by calls and when fuel is used up. -/
structure Step (R : Machine → Machine → Prop) : Prop extends WorkStep R where
  call {m n : Machine} (a : Activation) : R (m.pushCall a) n → R m n.popCall
  exhaust (m : Machine) : R m m.exhaust

/-- What holds behind a computation holds behind what follows it, if that keeps it. -/
theorem keeps_bind {Q : Machine → Prop} {α β : Type} {x : Run α} {f : α → Run β} {m : Machine} (hx : Q (x m).2)
    (hf : ∀ a, Keeps (fun m n => Q m → Q n) β (f a)) : Q ((x >>= f) m).2 :=
  hf _ _ hx

theorem EditStep.operational (h : EditStep R) : Operational (Keeps R) where
  pure _ m := h.refl m
  follow hx hf m := h.trans (hx m) (hf m _)
  query _ m := h.refl m
  edit hf m := h.edit m hf

theorem FrameStep.active (h : FrameStep R) : Active (Keeps R) (KeepsLive R) where
  toOperational := h.operational
  weaken hx m _ := hx m
  andThen hx hf m hm := h.trans (hx m hm) (hf _ _)
  sleepFor hx m hm := h.sleep _ hm (hx m.beginSleep)
  switchAll on _ hm := h.switchAll on hm

theorem WorkStep.ticking (h : WorkStep R) : Ticking (Keeps R) (KeepsLive R) where
  toActive := h.active
  ticked {α x y} hx hy m := by
    have ht : R m m.tick.2 := h.tick m
    show R m ((if m.tick.1 then x else y) m.tick.2).2
    rcases m.tick_cases with ⟨-, e⟩ | ⟨-, -, e⟩ | ⟨hm, -, e⟩ <;> rw [e] at ht ⊢
    · exact hy m
    · exact h.trans ht (hy _)
    · exact h.trans ht (hx _ hm)
  inLoop credit l _ hx m := h.loop credit l (hx ((m.grant credit).pushLoop l))
  learn name f m := h.learn m name f

theorem Step.lawful (h : Step R) : Lawful (Keeps R) (KeepsLive R) where
  toTicking := h.ticking
  inCall {a _} _ hx m := h.call a (hx (m.pushCall a))
  exhaust m := h.exhaust m

/-- **Runs.**  What every elementary change keeps is kept by a whole run. -/
theorem Step.run (h : Step R) (p : Program) (m : Machine) : R m (runProgram p m).2 := h.lawful.program p m

end RunningLights.Procedure
