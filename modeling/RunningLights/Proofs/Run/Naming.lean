import RunningLights.Proofs.Run.Reach

/-!
# What the names of arrays stand for

A name is followed through the parameters of the calls that are seen, the innermost first:

* `resolve`, `Machine.arrayName_eq` — the array that a name stands for, by recursion on the calls;
* `SameNames` — names stand for the same arrays, and arrays that were stored still are;
* `SameNames.step` — every computation of a run keeps them so;
* `Change.names` — and so does every elementary change but the start and the end of a call.
-/

namespace RunningLights.Procedure

/-- What a call adds to the names of arrays: names of its own, and whether those of its caller follow. -/
abbrev Naming := Bindings String × Bool

def Activation.naming (a : Activation) : Naming := (a.aliases, a.transparent)

/-- The names that the active calls add. -/
def Machine.naming (m : Machine) : List Naming := m.calls.map Activation.naming

/-- The array that a name stands for in a call, and behind all of them in the program itself. -/
def resolve (root : Bindings String) : List Naming → String → String
  | [], name => (root.get? name).getD name
  | (aliases, transparent) :: outer, name =>
    let target := (aliases.get? name).getD name
    if transparent then resolve root outer target else (root.get? target).getD target

namespace Machine

variable {m : Machine}

theorem foldl_visibleCalls (root : Activation) (calls : List Activation) (name : String) :
    (visibleCalls calls ++ [root]).foldl (fun n a => (a.aliases.get? n).getD n) name =
      resolve root.aliases (calls.map Activation.naming) name := by
  induction calls generalizing name with
  | nil => rfl
  | cons a rest ih =>
    cases ha : a.transparent with
    | true =>
      simp only [visibleCalls, ha, if_true, List.cons_append, List.foldl_cons, List.map_cons, Activation.naming,
        resolve]
      exact ih _
    | false =>
      simp only [visibleCalls, ha, List.map_cons, Activation.naming, resolve]
      rfl

theorem arrayName_eq (m : Machine) (name : String) : m.arrayName name = resolve m.root.aliases m.naming name :=
  foldl_visibleCalls m.root m.calls name

end Machine

/-- Calls of lambdas that have no array under the name do not change what it stands for. -/
theorem resolve_append {root : Bindings String} {inner : List Naming} {name : String}
    (h : ∀ c ∈ inner, c.2 = true ∧ c.1.get? name = none) (outer : List Naming) :
    resolve root (inner ++ outer) name = resolve root outer name := by
  induction inner with
  | nil => rfl
  | cons c inner ih =>
    obtain ⟨hc, hinner⟩ := List.forall_mem_cons.1 h
    simp only [List.cons_append, resolve, hc.1, hc.2, if_true, Option.getD_none]
    exact ih hinner

/-! ### What keeps the names -/

/-- Names stand for the same arrays, and the arrays that were stored still are. -/
structure SameNames (m n : Machine) : Prop where
  calls : n.naming = m.naming
  root : n.root.aliases = m.root.aliases
  stored : ∀ name, (m.arrays.get? name).isSome → (n.arrays.get? name).isSome

namespace SameNames

variable {m n o : Machine}

theorem refl (m : Machine) : SameNames m m := ⟨rfl, rfl, fun _ h => h⟩

theorem trans (hmn : SameNames m n) (hno : SameNames n o) : SameNames m o where
  calls := hno.calls.trans hmn.calls
  root := hno.root.trans hmn.root
  stored name h := hno.stored name (hmn.stored name h)

theorem length (h : SameNames m n) : n.calls.length = m.calls.length := by
  simpa only [Machine.naming, List.length_map] using congrArg List.length h.calls

theorem arrayName (h : SameNames m n) (name : String) : n.arrayName name = m.arrayName name := by
  rw [n.arrayName_eq, m.arrayName_eq, h.calls, h.root]

theorem array? (h : SameNames m n) {name : String} (hm : (m.array? name).isSome) : (n.array? name).isSome := by
  unfold Machine.array?
  rw [h.arrayName]
  exact h.stored _ hm

/-- Only the calls, the program's own names and the arrays matter. -/
theorem of_eq (hc : n.calls = m.calls) (hr : n.root = m.root) (ha : n.arrays = m.arrays) : SameNames m n where
  calls := congrArg (List.map Activation.naming) hc
  root := congrArg Activation.aliases hr
  stored _ h := ha ▸ h

theorem modifyCurrent (m : Machine) {g : Activation → Activation} (hg : ∀ a : Activation, (g a).naming = a.naming) :
    SameNames m (m.modifyCurrent g) := by
  have haliases (a : Activation) : (g a).aliases = a.aliases := congrArg Prod.fst (hg a)
  unfold Machine.modifyCurrent
  split
  · exact ⟨rfl, haliases _, fun _ h => h⟩
  · rename_i a rest hcalls
    refine ⟨?_, rfl, fun _ h => h⟩
    simp only [Machine.naming, hcalls, List.map_cons, hg]

theorem pushLoop (m : Machine) (l : LoopVar) : SameNames m (m.pushLoop l) :=
  modifyCurrent m (g := fun a => { a with loops := l :: a.loops }) fun _ => rfl

theorem popLoop (m : Machine) : SameNames m m.popLoop :=
  modifyCurrent m (g := fun a => { a with loops := a.loops.tail }) fun _ => rfl

theorem define (m : Machine) (name : String) (s : Slot) : SameNames m (m.define name s) :=
  modifyCurrent m (g := fun a => { a with locals := a.locals.set name s }) fun _ => rfl

theorem assign (m : Machine) (name : String) (v : Value) : SameNames m (m.assign name v) := by
  unfold Machine.assign
  split
  · rename_i calls root h
    have hnaming {a b : Activation} (ha : a.assign? name v = some b) : b.naming = a.naming := by
      obtain ⟨_, _, rfl⟩ := Activation.eq_of_assign? ha
      rfl
    obtain ⟨hcalls, hroot⟩ := Machine.map_assignVisible hnaming h
    exact ⟨hcalls, congrArg Prod.fst hroot, fun _ h => h⟩
  · exact define m name _

theorem modifyArray (m : Machine) (name : String) (f : TypedArray → TypedArray) :
    SameNames m (m.modifyArray name f) := by
  refine ⟨rfl, rfl, fun other h => ?_⟩
  simp only [Machine.modifyArray, Bindings.get?_modify]
  split
  · simpa using h
  · exact h

theorem setArray (m : Machine) (name : String) (a : TypedArray) :
    SameNames m { m with arrays := m.arrays.set name a } := by
  refine ⟨rfl, rfl, fun other h => ?_⟩
  simp only [Bindings.get?_set]
  split
  · rfl
  · exact h

theorem edit {f : Machine → Machine} (m : Machine) (hf : Edit f) : SameNames m (f m) := by
  cases hf with
  | assign name v => exact assign m name v
  | declare name kind isConst v => exact define m name _
  | loopVar n =>
    refine modifyCurrent m fun a => ?_
    split <;> rfl
  | setArray name _ => exact setArray m name _
  | resetArray name => exact modifyArray m name _
  | putAll name place ns => exact modifyArray m name _
  | element name place f => exact modifyArray m name _
  | _ => exact of_eq rfl rfl rfl

theorem capture (m : Machine) (d : Duration) (label : Option String) : SameNames m (m.capture d label) := by
  obtain ⟨halt, hc⟩ := m.capture_eq d label
  rw [hc]
  exact of_eq rfl rfl rfl

theorem tick (m : Machine) : SameNames m m.tick.2 := by
  rcases m.tick_cases with ⟨-, e⟩ | ⟨-, -, e⟩ | ⟨-, -, e⟩ <;> rw [e] <;> exact of_eq rfl rfl rfl

theorem popCall {a : Activation} (h : SameNames (m.pushCall a) n) : SameNames m n.popCall where
  calls := by
    have htail := congrArg List.tail h.calls
    simpa only [Machine.naming, Machine.pushCall, Machine.popCall, List.map_tail, List.map_cons, List.tail_cons]
      using htail
  root := h.root
  stored := h.stored

/-- **Every computation of a run keeps the names.** -/
theorem step : Step SameNames where
  refl := refl
  trans := trans
  edit := edit
  sleep {m n} d _ hn := by
    have hbegin : SameNames m m.beginSleep := of_eq rfl rfl rfl
    have hend : SameNames n n.endSleep := of_eq rfl rfl rfl
    exact ((hbegin.trans hn).trans hend).trans (capture n.endSleep d none)
  switchAll {m} on _ := by
    have hfill : SameNames m { m with channels := m.channels.fill on } := of_eq rfl rfl rfl
    exact hfill.trans (capture _ m.baseDelay (some (switchLabel on)))
  tick := tick
  loop {m n} credit l hn := by
    have hgrant : SameNames m (m.grant credit) := of_eq rfl rfl rfl
    exact ((hgrant.trans (pushLoop _ l)).trans hn).trans (popLoop n)
  learn _ _ _ := of_eq rfl rfl rfl
  call _ h := h.popCall
  exhaust _ := of_eq rfl rfl rfl

end SameNames

/-- An elementary change keeps the names, or it starts or ends a call. -/
theorem Change.names {m n : Machine} (h : Change m n) : SameNames m n ∨ (∃ a, n = m.pushCall a) ∨ n = m.popCall := by
  cases h with
  | edit hf => exact .inl (.edit m hf)
  | capture d label => exact .inl (.capture m d label)
  | tick => exact .inl (.tick m)
  | pushLoop l => exact .inl (.pushLoop m l)
  | popLoop => exact .inl (.popLoop m)
  | pushCall => exact .inr (.inl ⟨_, rfl⟩)
  | popCall => exact .inr (.inr rfl)
  | _ => exact .inl (.of_eq rfl rfl rfl)

/-- The program itself has no names of its own for arrays. -/
theorem Change.root_aliases {m n : Machine} (h : Change m n) (hm : m.root.aliases = []) : n.root.aliases = [] := by
  rcases h.names with h | ⟨a, rfl⟩ | rfl
  · exact h.root.trans hm
  · exact hm
  · exact hm

end RunningLights.Procedure
