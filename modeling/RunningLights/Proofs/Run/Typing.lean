import RunningLights.Proofs.Run.Reach

/-!
# The typed store

Wherever a run stands, its store is typed:

* `Machine.Sound` — the variables and arrays of a machine are sound;
* `Change.sound` — every elementary change keeps them so;
* `Machine.Typed` — what that means for whoever reads the store: each value has the kind that it was declared with, and
  each row and column in range has an element of its own;
* `Simulation.typed_store` — the store is typed in every state of a run.
-/

namespace RunningLights.Procedure

/-- The variables of all activations and the arrays are sound. -/
structure Machine.Sound (m : Machine) : Prop where
  root : m.root.Sound
  calls : ∀ a ∈ m.calls, a.Sound
  arrays : ∀ name a, m.arrays.get? name = some a → a.Sound

namespace Machine.Sound

variable {m n : Machine}

/-- Only the variables and the arrays matter. -/
theorem congr (h : m.Sound) (hr : n.root = m.root) (hc : n.calls = m.calls) (ha : n.arrays = m.arrays) : n.Sound := by
  obtain ⟨root, calls, arrays⟩ := h
  exact ⟨hr ▸ root, hc ▸ calls, ha ▸ arrays⟩

theorem modifyCurrent (h : m.Sound) {g : Activation → Activation} (hg : ∀ a : Activation, a.Sound → (g a).Sound) :
    (m.modifyCurrent g).Sound := by
  unfold Machine.modifyCurrent
  split
  · exact ⟨hg _ h.root, h.calls, h.arrays⟩
  · rename_i a rest hcalls
    have hall : ∀ b ∈ a :: rest, b.Sound := hcalls ▸ h.calls
    obtain ⟨hfirst, hrest⟩ := List.forall_mem_cons.1 hall
    exact ⟨h.root, List.forall_mem_cons.2 ⟨hg a hfirst, hrest⟩, h.arrays⟩

/-- A change of the loops of the innermost activation is none of its variables. -/
theorem modifyLoops (h : m.Sound) {g : Activation → Activation} (hg : ∀ a : Activation, (g a).locals = a.locals) :
    (m.modifyCurrent g).Sound := by
  refine h.modifyCurrent fun a ha => ?_
  unfold Activation.Sound
  rw [hg a]
  exact ha

theorem define (h : m.Sound) (name : String) {s : Slot} (hs : s.Sound) : (m.define name s).Sound :=
  h.modifyCurrent fun _ ha => ha.define name hs

/-- Storing a value in a variable that is seen keeps all activations sound. -/
theorem of_assignVisible {name : String} {v : Value} {root root' : Activation} {calls calls' : List Activation}
    (hr : root.Sound) (hc : ∀ a ∈ calls, a.Sound)
    (h : assignVisible name v root calls = some (calls', root')) : root'.Sound ∧ ∀ a ∈ calls', a.Sound := by
  induction calls generalizing calls' root' with
  | nil =>
    obtain ⟨b, hb, heq⟩ := Option.map_eq_some_iff.1 h
    cases heq
    exact ⟨hr.assign? hb, hc⟩
  | cons a rest ih =>
    obtain ⟨ha, hrest⟩ := List.forall_mem_cons.1 hc
    rw [assignVisible] at h
    split at h
    · rename_i b hb
      cases h
      exact ⟨hr, List.forall_mem_cons.2 ⟨ha.assign? hb, hrest⟩⟩
    · split at h
      · obtain ⟨⟨rest', root''⟩, hsome, heq⟩ := Option.map_eq_some_iff.1 h
        cases heq
        obtain ⟨hroot, hall⟩ := ih hrest hsome
        exact ⟨hroot, List.forall_mem_cons.2 ⟨ha, hall⟩⟩
      · obtain ⟨b, hb, heq⟩ := Option.map_eq_some_iff.1 h
        cases heq
        exact ⟨hr.assign? hb, hc⟩

theorem assign (h : m.Sound) (name : String) (v : Value) : (m.assign name v).Sound := by
  unfold Machine.assign
  split
  · rename_i calls root hsome
    obtain ⟨hroot, hcalls⟩ := of_assignVisible h.root h.calls hsome
    exact ⟨hroot, hcalls, h.arrays⟩
  · exact h.define name (Slot.sound_of_none rfl)

theorem modifyArray (h : m.Sound) (name : String) {f : TypedArray → TypedArray}
    (hf : ∀ a : TypedArray, a.Sound → (f a).Sound) : (m.modifyArray name f).Sound :=
  ⟨h.root, h.calls, Bindings.forall_get?_modify h.arrays hf⟩

theorem setArray (h : m.Sound) (name : String) {a : TypedArray} (ha : a.Sound) :
    Machine.Sound { m with arrays := m.arrays.set name a } :=
  ⟨h.root, h.calls, Bindings.forall_get?_set h.arrays ha⟩

theorem edit (h : m.Sound) {f : Machine → Machine} (hf : Edit f) : (f m).Sound := by
  cases hf with
  | assign name v => exact h.assign name v
  | declare name kind isConst v =>
    refine h.define name fun k hk => ?_
    cases hk
    exact VarKind.hasKind_convert kind v
  | loopVar n =>
    refine h.modifyLoops fun a => ?_
    split <;> rfl
  | setArray name ha => exact h.setArray name ha
  | resetArray name => exact h.modifyArray name fun _ ha => ha.reset
  | putAll name place ns => exact h.modifyArray name fun _ ha => ha.putAll place ns
  | element name place f => exact h.modifyArray name fun _ ha => ha.set place _
  | channel i on => exact h.congr rfl rfl rfl
  | draw f => exact h.congr rfl rfl rfl
  | place | behind => exact h.congr rfl rfl rfl

theorem pushCall (h : m.Sound) {a : Activation} (ha : a.Fresh) : (m.pushCall a).Sound :=
  ⟨h.root, List.forall_mem_cons.2 ⟨ha.sound, h.calls⟩, h.arrays⟩

theorem popCall (h : m.Sound) : m.popCall.Sound :=
  ⟨h.root, fun a ha => h.calls a (List.mem_of_mem_tail ha), h.arrays⟩

theorem start (total : Nat) (baseDelay : Duration) (cap limit seed : Nat) :
    (Machine.start total baseDelay cap limit seed).Sound where
  root := Activation.sound_empty
  calls _ ha := by cases ha
  arrays _ _ ha := by cases ha

end Machine.Sound

/-- **Every elementary change keeps the store sound.** -/
theorem Change.sound {m n : Machine} (h : Change m n) (hm : m.Sound) : n.Sound := by
  cases h with
  | edit hf => exact hm.edit hf
  | capture d label =>
    obtain ⟨halt, hc⟩ := m.capture_eq d label
    rw [hc]
    exact hm.congr rfl rfl rfl
  | tick =>
    rcases m.tick_cases with ⟨-, e⟩ | ⟨-, -, e⟩ | ⟨-, -, e⟩ <;> rw [e] <;> exact hm.congr rfl rfl rfl
  | pushLoop l => exact hm.modifyLoops fun _ => rfl
  | popLoop => exact hm.modifyLoops fun _ => rfl
  | pushCall ha => exact hm.pushCall ha
  | popCall => exact hm.popCall
  | _ => exact hm.congr rfl rfl rfl

/-! ### Reading the store -/

/-- Every variable and every element has a value of the kind that it was declared with.  The rows and columns of an
array lie within its elements, of which there are no more than an array may have, and each row and column in range has
an element of its own. -/
structure Machine.Typed (m : Machine) : Prop where
  scalars : ∀ a ∈ m.root :: m.calls, ∀ name s, a.locals.get? name = some s →
    ∀ k, s.kind = some k → k.HasKind s.value
  elements : ∀ name a, m.arrays.get? name = some a → ∀ v ∈ a.data, a.kind.HasKind v
  sizes : ∀ name a, m.arrays.get? name = some a → a.rows * a.cols ≤ a.data.size ∧ a.data.size ≤ maxArrayLength
  addressed : ∀ name a, m.arrays.get? name = some a → ∀ r c, a.InRange r c → ∃ v, a.get? [r, c] = some v
  distinct : ∀ name a, m.arrays.get? name = some a → ∀ r c r' c', a.InRange r c → a.InRange r' c' →
    a.offset? [r, c] = a.offset? [r', c'] → r = r' ∧ c = c'

theorem Machine.Sound.typed {m : Machine} (h : m.Sound) : m.Typed where
  scalars a ha name s hs := by
    rcases List.mem_cons.1 ha with rfl | ha
    · exact h.root name s hs
    · exact h.calls a ha name s hs
  elements name a ha := (h.arrays name a ha).kinds
  sizes name a ha := ⟨(h.arrays name a ha).shape, (h.arrays name a ha).atMost⟩
  addressed name a ha _ _ hr := (h.arrays name a ha).exists_get? hr
  distinct name a ha _ _ _ _ hr hr' he := (h.arrays name a ha).eq_of_offset? hr hr' he

end RunningLights.Procedure

namespace RunningLights.Simulation

open Procedure

variable {total : Nat} {baseDelay : Duration} {limits : RunLimits} {commands : List Command}

/-- **The typed store.**  The states that a run reaches go up to its end, and evaluating any expression and running any
statements from one of them leads to another.  The store is typed in all of them. -/
theorem typed_store :
    Reaches (startMachine total baseDelay limits commands) (finalMachine total baseDelay limits commands) ∧
    ∀ m, Reaches (startMachine total baseDelay limits commands) m →
      m.Typed ∧
      (∀ e : Expr, Reaches (startMachine total baseDelay limits commands)
        ((e.eval programEnvironment .integer).run m).2) ∧
      ∀ ss, Reaches (startMachine total baseDelay limits commands) (execBlock programEnvironment ss m).2 := by
  refine ⟨reaches_finalMachine total baseDelay limits commands, fun m h => ⟨?_, fun e => ?_, fun ss => ?_⟩⟩
  · exact (h.keeps Change.sound (.start _ _ _ _ _)).typed
  · exact h.trans (Reaches.of_eval e m)
  · exact h.trans (Reaches.of_block ss m)

/-- A program that declares a grid of two rows and three columns and adds a half to its last element. -/
def grid : List Command :=
  [.act (.declare ⟨"a", .integer, false, [.ofWord 2, .ofWord 3], .rows [[.ofWord 1, .ofWord 2], [.ofWord 3]]⟩),
    .act (.assign "a" [.ofWord 1, .ofWord 2] .add (some ⟨"0.5", some (.literal (.float 0.5))⟩))]

theorem typed_store_grid :
    (finalMachine 8 (.ofMillis 30) ⟨10, 600, 0⟩ grid).Typed ∧
    ((finalMachine 8 (.ofMillis 30) ⟨10, 600, 0⟩ grid).arrays.get? "a").map
      (fun a => (a.rows, a.cols, a.data.size)) = some (2, 3, 6) := by
  obtain ⟨hend, htyped⟩ := @typed_store 8 (.ofMillis 30) ⟨10, 600, 0⟩ grid
  exact ⟨(htyped _ hend).1, by decide +kernel⟩

end RunningLights.Simulation
