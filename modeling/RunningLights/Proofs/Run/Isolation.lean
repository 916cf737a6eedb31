import RunningLights.Proofs.Run.Relation

/-!
# Calls of functions

A function sees its own variables and those of the program, and so does whatever it calls.  The activations below it
are neither seen nor changed:

* `Machine.above` — a machine with further activations below its own;
* `Isolated` — the computations that do the same over any activations, and leave them as they are;
* `Isolated.lawful` — once a function is active, every computation of a run is one of these;
* `call_isolated` — what a call of a function gives does not depend on the activations below it.
-/

namespace RunningLights.Procedure

/-- Some call is of a function, so that what is below it is not seen. -/
def Closed (calls : List Activation) : Prop := ∃ a ∈ calls, a.transparent = false

/-- A function that is active stays so as long as the same calls are. -/
theorem SameShape.closed {m n : Machine} (h : SameShape m n) (hm : Closed m.calls) : Closed n.calls := by
  obtain ⟨a, ha, hopaque⟩ := hm
  have hmem : false ∈ n.calls.map Activation.transparent := by
    rw [show n.calls.map Activation.transparent = m.calls.map Activation.transparent from h]
    exact List.mem_map.2 ⟨a, ha, hopaque⟩
  exact List.mem_map.1 hmem

theorem Closed.ne_nil {calls : List Activation} (h : Closed calls) : calls ≠ [] := by
  rintro rfl
  obtain ⟨a, ha, -⟩ := h
  cases ha

theorem Closed.tail {a : Activation} {rest : List Activation} (h : Closed (a :: rest)) (ha : a.transparent = true) :
    Closed rest := by
  obtain ⟨b, hb, hopaque⟩ := h
  rcases List.mem_cons.1 hb with rfl | hb
  · rw [ha] at hopaque
    cases hopaque
  · exact ⟨b, hb, hopaque⟩

/-! ### Variables and arrays -/

namespace Machine

/-- The machine with further activations below its own. -/
def above (m : Machine) (outer : List Activation) : Machine := { m with calls := m.calls ++ outer }

theorem visibleCalls_append {calls : List Activation} (h : Closed calls) (outer : List Activation) :
    visibleCalls (calls ++ outer) = visibleCalls calls := by
  induction calls with
  | nil => exact absurd rfl h.ne_nil
  | cons a rest ih =>
    simp only [List.cons_append, visibleCalls]
    split
    · rename_i ha
      rw [ih (h.tail ha)]
    · rfl

theorem assignVisible_append (name : String) (v : Value) (root : Activation) {calls : List Activation}
    (h : Closed calls) (outer : List Activation) :
    assignVisible name v root (calls ++ outer) =
      (assignVisible name v root calls).map fun stored => (stored.1 ++ outer, stored.2) := by
  induction calls with
  | nil => exact absurd rfl h.ne_nil
  | cons a rest ih =>
    simp only [List.cons_append, assignVisible]
    split
    · rfl
    · split
      · rename_i ha
        rw [ih (h.tail ha)]
        cases assignVisible name v root rest <;> rfl
      · cases root.assign? name v <;> rfl

variable {m : Machine}

theorem modifyCurrent_above (h : m.calls ≠ []) (g : Activation → Activation) (outer : List Activation) :
    (m.above outer).modifyCurrent g = (m.modifyCurrent g).above outer := by
  obtain ⟨a, rest, hcalls⟩ := List.exists_cons_of_ne_nil h
  simp only [modifyCurrent, above, hcalls, List.cons_append]

section

variable (h : Closed m.calls) (outer : List Activation)
include h

theorem visible_above : (m.above outer).visible = m.visible :=
  congrArg (· ++ [m.root]) (visibleCalls_append h outer)

theorem lookup_above (name : String) : (m.above outer).lookup name = m.lookup name := by
  unfold lookup
  rw [visible_above h]
  rfl

theorem arrayName_above (name : String) : (m.above outer).arrayName name = m.arrayName name := by
  unfold arrayName
  rw [visible_above h]

theorem array?_above : (m.above outer).array? = m.array? := by
  funext name
  unfold array?
  rw [arrayName_above h]
  rfl

theorem element_above (name : String) (indices : List Int64) :
    (m.above outer).element name indices = m.element name indices := by
  unfold element
  rw [array?_above h]
  rfl

theorem ints_above (name : String) : (m.above outer).ints name = m.ints name := by
  unfold ints
  rw [array?_above h]
  rfl

theorem modifyArray_above (name : String) (f : TypedArray → TypedArray) :
    (m.above outer).modifyArray name f = (m.modifyArray name f).above outer := by
  unfold modifyArray
  rw [arrayName_above h]
  rfl

theorem assign_above (name : String) (v : Value) : (m.above outer).assign name v = (m.assign name v).above outer := by
  have happend := assignVisible_append name v m.root h outer
  have hdefine := modifyCurrent_above h.ne_nil
    (fun a => { a with locals := a.locals.set name ⟨none, false, v⟩ }) outer
  unfold assign
  rw [show (m.above outer).root = m.root from rfl, show (m.above outer).calls = m.calls ++ outer from rfl, happend]
  cases assignVisible name v m.root m.calls with
  | some stored => rfl
  | none => exact hdefine

end

theorem capture_above (m : Machine) (outer : List Activation) (d : Duration) (label : Option String) :
    (m.above outer).capture d label = (m.capture d label).above outer := by
  unfold capture stop
  rw [show (m.above outer).recorder = m.recorder from rfl, show (m.above outer).halted = m.halted from rfl]
  cases m.recorder.isFull <;> cases m.halted <;> rfl

theorem sameShape_capture (m : Machine) (d : Duration) (label : Option String) : SameShape m (m.capture d label) := by
  obtain ⟨halt, hc⟩ := m.capture_eq d label
  rw [hc]
  rfl

theorem tick_above (m : Machine) (outer : List Activation) :
    (m.above outer).tick = (m.tick.1, m.tick.2.above outer) := by
  rcases m.tick_cases with ⟨hm, e⟩ | ⟨hm, hlt, e⟩ | ⟨hm, hle, e⟩ <;> rw [e]
  · exact tick_of_halted hm
  · exact tick_of_lt hm hlt
  · exact tick_of_le hm hle

theorem sameShape_tick (m : Machine) : SameShape m m.tick.2 := by
  rcases m.tick_cases with ⟨-, e⟩ | ⟨-, -, e⟩ | ⟨-, -, e⟩ <;> rw [e] <;> rfl

end Machine

/-! ### Queries and edits -/

/-- What is asked for is the same over as many activations. -/
theorem Query.above {α : Type} {f : Machine → α} (hf : Query f) {m : Machine} (h : Closed m.calls)
    {outer outer' : List Activation} (hl : outer.length = outer'.length) : f (m.above outer) = f (m.above outer') := by
  have harray := (Machine.array?_above h outer).trans (Machine.array?_above h outer').symm
  have hname := fun name => (Machine.arrayName_above h outer name).trans (Machine.arrayName_above h outer' name).symm
  cases hf with
  | lookup name => exact (Machine.lookup_above h outer name).trans (Machine.lookup_above h outer' name).symm
  | element name indices =>
    exact (Machine.element_above h outer name indices).trans (Machine.element_above h outer' name indices).symm
  | ints name => exact (Machine.ints_above h outer name).trans (Machine.ints_above h outer' name).symm
  | known name => exact congrArg Option.isSome (congrFun harray name)
  | passed arg => simp only [passedArray?, harray, hname]
  | segments arg => simp only [segmentRows, harray]
  | depth => simp only [Machine.above, List.length_append, hl]
  | _ => rfl

theorem Edit.above {f : Machine → Machine} (hf : Edit f) {m : Machine} (h : Closed m.calls) (outer : List Activation) :
    f (m.above outer) = (f m).above outer := by
  have hcurrent (g : Activation → Activation) : (m.above outer).modifyCurrent g = (m.modifyCurrent g).above outer :=
    Machine.modifyCurrent_above h.ne_nil g outer
  cases hf with
  | assign name v => exact Machine.assign_above h outer name v
  | declare name kind isConst v =>
    exact hcurrent fun a => { a with locals := a.locals.set name ⟨some kind, isConst, kind.convert v⟩ }
  | loopVar n => exact hcurrent _
  | resetArray name => exact Machine.modifyArray_above h outer name _
  | putAll name place ns => exact Machine.modifyArray_above h outer name _
  | element name place f => exact Machine.modifyArray_above h outer name _
  | _ => rfl

/-! ### Computations -/

/-- The computations that do the same over any `depth` activations, once a function is active, and leave these as
they are. -/
def Isolated (depth : Nat) : Law := fun α x => ∀ m : Machine, Closed m.calls → ∃ (a : α) (n : Machine), SameShape m n ∧
  ∀ outer : List Activation, outer.length = depth → x (m.above outer) = (a, n.above outer)

namespace Isolated

variable {depth : Nat} {α β : Type}

theorem follow {x : Run α} {f : α → Run β} (hx : Isolated depth α x) (hf : ∀ m, Isolated depth β (f (x m).1)) :
    Isolated depth β (x >>= f) := by
  intro m hm
  obtain ⟨a, n, hmn, hx⟩ := hx m hm
  have hf : Isolated depth β (f a) := by
    have h := hf (m.above (List.replicate depth .empty))
    rw [hx _ List.length_replicate] at h
    exact h
  obtain ⟨b, o, hno, hf⟩ := hf n (hmn.closed hm)
  exact ⟨b, o, hmn.trans hno, fun outer ho => (bind_of_eq (hx outer ho)).trans (hf outer ho)⟩

theorem operational (depth : Nat) : Operational (Isolated depth) where
  pure a m _ := ⟨a, m, rfl, fun _ _ => rfl⟩
  follow := follow
  query {α f} hf m hm := by
    refine ⟨f (m.above (List.replicate depth .empty)), m, rfl, fun outer ho => ?_⟩
    have hl : outer.length = (List.replicate depth Activation.empty).length := ho.trans List.length_replicate.symm
    exact congrArg (·, m.above outer) (hf.above hm hl)
  edit {f} hf m hm := ⟨(), f m, hf.sameShape m, fun outer _ => congrArg ((), ·) (hf.above hm outer)⟩

theorem active (depth : Nat) : Active (Isolated depth) (Isolated depth) where
  toOperational := operational depth
  weaken hx := hx
  andThen := (operational depth).bind
  sleepFor {x} hx m hm := by
    obtain ⟨d, n, hmn, hx⟩ := hx m.beginSleep hm
    have hend : SameShape m n.endSleep := hmn
    refine ⟨(), n.endSleep.capture d none, hend.trans (n.endSleep.sameShape_capture d none), fun outer ho => ?_⟩
    show ((), (x (m.beginSleep.above outer)).2.endSleep.capture (x (m.beginSleep.above outer)).1 none) = _
    rw [hx outer ho]
    exact congrArg ((), ·) (n.endSleep.capture_above outer d none)
  switchAll on m _ := by
    let filled : Machine := { m with channels := m.channels.fill on }
    have hfill : SameShape m filled := rfl
    refine ⟨(), filled.capture m.baseDelay (some (switchLabel on)), ?_, fun outer _ => ?_⟩
    · exact hfill.trans (filled.sameShape_capture _ _)
    · exact congrArg ((), ·) (filled.capture_above outer m.baseDelay (some (switchLabel on)))

theorem ticked {x y : Run α} (hx : Isolated depth α x) (hy : Isolated depth α y) :
    Isolated depth α (do if ← Machine.tick then x else y) := by
  intro m hm
  have hrest : Isolated depth α (if m.tick.1 then x else y) := by
    split
    · exact hx
    · exact hy
  obtain ⟨a, n, hmn, hrest⟩ := hrest m.tick.2 (m.sameShape_tick.closed hm)
  refine ⟨a, n, m.sameShape_tick.trans hmn, fun outer ho => ?_⟩
  exact (bind_of_eq (m.tick_above outer)).trans (hrest outer ho)

theorem inLoop (credit : Nat) (l : LoopVar) {x : Run Flow} (hx : Isolated depth _ x) :
    Isolated depth _ (inLoop credit l x) := by
  intro m hm
  have hne : (m.grant credit).calls ≠ [] := hm.ne_nil
  have hpush : SameShape m ((m.grant credit).pushLoop l) := (m.grant credit).sameShape_modifyCurrent fun _ => rfl
  obtain ⟨flow, n, hmn, hx⟩ := hx _ (hpush.closed hm)
  have hpop : SameShape n n.popLoop := n.sameShape_modifyCurrent fun _ => rfl
  refine ⟨flow, n.popLoop, (hpush.trans hmn).trans hpop, fun outer ho => ?_⟩
  have hstart : ((m.above outer).grant credit).pushLoop l = ((m.grant credit).pushLoop l).above outer :=
    Machine.modifyCurrent_above hne _ outer
  have hend : (n.above outer).popLoop = n.popLoop.above outer :=
    Machine.modifyCurrent_above (hmn.closed (hpush.closed hm)).ne_nil _ outer
  show ((x (((m.above outer).grant credit).pushLoop l)).1, (x (((m.above outer).grant credit).pushLoop l)).2.popLoop) = _
  rw [hstart, hx outer ho, hend]

theorem inCall (a : Activation) {x : Run Flow} (hx : Isolated depth _ x) : Isolated depth _ (inCall a x) := by
  intro m hm
  obtain ⟨b, hb, hopaque⟩ := hm
  obtain ⟨flow, n, hmn, hx⟩ := hx (m.pushCall a) ⟨b, List.mem_cons_of_mem a hb, hopaque⟩
  -- the call that was started is the first one still
  obtain ⟨c, rest, hcalls⟩ : ∃ c rest, n.calls = c :: rest := by
    refine List.exists_cons_of_ne_nil fun hnil => ?_
    simp [SameShape, hnil, Machine.pushCall] at hmn
  have hshape : SameShape m n.popCall := by
    simp only [SameShape, hcalls, Machine.pushCall, List.map_cons, List.cons.injEq] at hmn
    simp only [SameShape, Machine.popCall, hcalls, List.tail_cons]
    exact hmn.2
  refine ⟨flow, n.popCall, hshape, fun outer ho => ?_⟩
  have hpop : (n.above outer).popCall = n.popCall.above outer := by
    simp only [Machine.popCall, Machine.above, hcalls, List.cons_append, List.tail_cons]
  show ((x ((m.pushCall a).above outer)).1, (x ((m.pushCall a).above outer)).2.popCall) = _
  rw [hx outer ho, hpop]

/-- **Isolation.**  Once a function is active, what a run does neither sees nor changes the activations below. -/
theorem lawful (depth : Nat) : Lawful (Isolated depth) (Isolated depth) where
  toActive := active depth
  ticked := ticked
  inLoop := inLoop
  learn name f m _ := ⟨(), { m with functions := m.functions.set name f }, rfl, fun _ _ => rfl⟩
  inCall _ := inCall _
  exhaust m _ := ⟨(), m.exhaust, rfl, fun _ _ => rfl⟩

end Isolated

/-! ### Calls -/

/-- The body of a function gives the same over any activations, as many as there are, and leaves them as they are. -/
theorem runBody_above (fuel : Nat) (body : List Stmt) {a : Activation} (ha : a.transparent = false) (m : Machine) :
    ∃ (v : Value) (n : Machine), n.calls = m.calls ∧ ∀ outer : List Activation, outer.length = m.calls.length →
      runBody (environment (invoke fuel)) body a { m with calls := outer } = (v, { n with calls := outer }) := by
  have hl := Isolated.lawful m.calls.length
  have hbody := hl.working.block (hl.environment (hl.invoke fuel)) body
  -- the machine on which nothing but the function is active
  obtain ⟨flow, n, hmn, hrun⟩ := hbody { m with calls := [a] } ⟨a, List.mem_singleton_self a, ha⟩
  obtain ⟨b, hcalls⟩ : ∃ b, n.calls = [b] := by
    have hlen : n.calls.length = 1 := by simpa using congrArg List.length hmn
    exact List.length_eq_one_iff.1 hlen
  have hcall (outer : List Activation) (ho : outer.length = m.calls.length) :
      inCall a (execBlock (environment (invoke fuel)) body) { m with calls := outer } =
        (flow, { n with calls := outer }) := by
    have hbelow : ({ m with calls := outer } : Machine).pushCall a = Machine.above { m with calls := [a] } outer := rfl
    have hpop : (n.above outer).popCall = { n with calls := outer } := by
      simp only [Machine.popCall, Machine.above, hcalls, List.cons_append, List.tail_cons, List.nil_append]
    show ((execBlock _ body (({ m with calls := outer } : Machine).pushCall a)).1,
      (execBlock _ body (({ m with calls := outer } : Machine).pushCall a)).2.popCall) = _
    rw [hbelow, hrun outer ho, hpop]
  cases flow with
  | ret value =>
    cases value with
    | some v => exact ⟨v, { n with calls := m.calls }, rfl, fun outer ho => bind_of_eq (hcall outer ho)⟩
    | none => exact ⟨.int 0, { n with calls := m.calls }, rfl, fun outer ho => bind_of_eq (hcall outer ho)⟩
  | _ => exact ⟨.int 0, { n with calls := m.calls }, rfl, fun outer ho => bind_of_eq (hcall outer ho)⟩

/-- **Calls of functions.**  A call of a function whose parameters have been bound leaves the activations below it as
they are, and over any others, as many as these, its body gives the same value and the same state of everything
else. -/
theorem call_isolated {fuel : Nat} {f : Closure} {args : List Arg} {a : Activation} {m m' : Machine}
    (hf : f.isLambda = false) (hd : m.calls.length < maxCalls)
    (hb : (bindParams { Activation.empty with transparent := f.isLambda } f.params args).run m = (.ok a, m')) :
    ∃ (v : Value) (n : Machine), (invoke (fuel + 1) f args).run m = (.ok v, n) ∧ n.calls = m'.calls ∧
      ∀ outer : List Activation, outer.length = m'.calls.length →
        runBody (environment (invoke fuel)) f.body a { m' with calls := outer } = (v, { n with calls := outer }) := by
  have ha : a.transparent = false := (transparent_bindParams (congrArg Prod.fst hb)).trans hf
  obtain ⟨v, n, hcalls, hbody⟩ := runBody_above fuel f.body ha m'
  refine ⟨v, n, ?_, hcalls, hbody⟩
  have hrun : runBody (environment (invoke fuel)) f.body a m' = (v, n) :=
    (hbody m'.calls rfl).trans (by rw [← hcalls])
  have hdepth : (Eval.read fun m => .ok m.calls.length).run m = (.ok m.calls.length, m) := rfl
  rw [invoke, ExceptT.run_bind, bind_of_eq hdepth]
  show (if maxCalls ≤ m.calls.length then _ else _ : Eval Value).run m = _
  rw [if_neg (Nat.not_le.2 hd), ExceptT.run_bind, bind_of_eq hb]
  exact (bind_of_eq (f := fun v => Pure.pure (Except.ok v)) hrun).trans rfl

/-- A function that stores its parameter under the name of a loop variable of its caller. -/
def meddler : Closure :=
  ⟨"meddle", ["x"], [.act (.assign "i" [] .set (some ⟨"x", some (.ident "x")⟩)), .ret (some ⟨"i", some (.ident "i")⟩)],
    false⟩

/-- A state in which a call is in a loop over `i`. -/
def looping : Machine :=
  { Machine.start 8 (.ofMillis 30) 600 100 0 with calls := [{ Activation.empty with loops := [⟨"i", 7⟩] }] }

/-- The activation of the function that was given 3. -/
def meddling : Activation := { Activation.empty with locals := [("x", ⟨none, false, .int 3⟩)] }

theorem call_isolated_meddler :
    (bindParams { Activation.empty with transparent := meddler.isLambda } meddler.params
      [⟨.literal (.int 3), pure (.int 3)⟩]).run looping = (.ok meddling, looping) ∧
    ∃ (v : Value) (n : Machine),
      (invoke maxCalls meddler [⟨.literal (.int 3), pure (.int 3)⟩]).run looping = (.ok v, n) ∧
      n.calls = looping.calls ∧ ∀ outer : List Activation, outer.length = looping.calls.length →
        runBody (environment (invoke 63)) meddler.body meddling { looping with calls := outer } =
          (v, { n with calls := outer }) :=
  ⟨rfl, call_isolated rfl (by decide) rfl⟩

end RunningLights.Procedure
