import RunningLights.Proofs.Run.Ceiling
import RunningLights.Proofs.Run.References

/-!
# The stack of activations

Whatever runs, however it ends, leaves the activations as they were:

* `Outline`, `Machine.stack` — what an activation keeps: its loops, the arrays that its parameters stand for, and what
  it is a call of;
* `SameStack.step` — every computation of a run keeps the stack;
* `GuardedChange`, `Descends`, `Levels.invoke` — and it goes by elementary changes that start no call too many, as a
  call asks for its depth before it starts;
* `Simulation.stack_discipline` — both, for all that can be run in the states of a run, and what a call does step by
  step.
-/

namespace RunningLights.Procedure

/-! ### What the activations keep -/

/-- What is left of an activation when its values are forgotten. -/
structure Outline where
  /-- The names of the loop variables, the innermost first. -/
  loops : List String
  aliases : Bindings String
  transparent : Bool
  deriving DecidableEq

def Activation.outline (a : Activation) : Outline := ⟨a.loops.map LoopVar.name, a.aliases, a.transparent⟩

/-- The activations, the innermost first and the program itself last. -/
def Machine.stack (m : Machine) : List Outline := (m.calls ++ [m.root]).map Activation.outline

namespace Machine

variable {m n : Machine}

theorem length_stack (m : Machine) : m.stack.length = m.calls.length + 1 := by
  rw [stack, List.length_map, List.length_append, List.length_singleton]

theorem length_calls (h : n.stack = m.stack) : n.calls.length = m.calls.length := by
  have hlength := congrArg List.length h
  rw [length_stack, length_stack] at hlength
  exact Nat.succ.inj hlength

theorem stack_modifyCurrent (m : Machine) {g : Activation → Activation} {k : Outline → Outline}
    (hg : ∀ a : Activation, (g a).outline = k a.outline) : (m.modifyCurrent g).stack = m.stack.modifyHead k := by
  unfold modifyCurrent
  split
  · rename_i hcalls
    simp only [stack, hcalls, List.nil_append, List.map_cons, List.map_nil, List.modifyHead_cons, hg]
  · rename_i a rest hcalls
    simp only [stack, hcalls, List.cons_append, List.map_cons, List.modifyHead_cons, hg]

theorem stack_modifyCurrent_same (m : Machine) {g : Activation → Activation}
    (hg : ∀ a : Activation, (g a).outline = a.outline) : (m.modifyCurrent g).stack = m.stack := by
  rw [m.stack_modifyCurrent (k := id) hg, List.modifyHead_id]
  rfl

theorem stack_pushLoop (m : Machine) (l : LoopVar) :
    (m.pushLoop l).stack = m.stack.modifyHead fun o => { o with loops := l.name :: o.loops } :=
  m.stack_modifyCurrent fun _ => rfl

theorem stack_popLoop (m : Machine) :
    m.popLoop.stack = m.stack.modifyHead fun o => { o with loops := o.loops.tail } :=
  m.stack_modifyCurrent fun a => by simp only [Activation.outline, List.map_tail]

theorem stack_pushCall (m : Machine) (a : Activation) : (m.pushCall a).stack = a.outline :: m.stack := rfl

theorem stack_popCall {a : Activation} (h : n.stack = (m.pushCall a).stack) : n.popCall.stack = m.stack := by
  have hlength : n.calls.length = (m.pushCall a).calls.length := length_calls h
  cases hcalls : n.calls with
  | nil =>
    rw [hcalls] at hlength
    cases hlength
  | cons b rest =>
    rw [stack_pushCall, stack, hcalls, List.cons_append, List.map_cons] at h
    rw [stack, popCall, hcalls]
    exact List.tail_eq_of_cons_eq h

theorem map_name_setLoop (name : String) (n : Int64) (ls : List LoopVar) :
    (Activation.setLoop name n ls).map LoopVar.name = ls.map LoopVar.name := by
  induction ls with
  | nil => rfl
  | cons l ls ih =>
    unfold Activation.setLoop
    split
    · rfl
    · rw [List.map_cons, List.map_cons, ih]

theorem outline_assign? {a b : Activation} {name : String} {v : Value} (h : a.assign? name v = some b) :
    b.outline = a.outline := by
  unfold Activation.assign? at h
  split at h
  · cases h
    simp only [Activation.outline, map_name_setLoop]
  · split at h
    · cases h
      rfl
    · cases h

theorem stack_assign (m : Machine) (name : String) (v : Value) : (m.assign name v).stack = m.stack := by
  unfold assign
  split
  · rename_i calls root h
    obtain ⟨hcalls, hroot⟩ := map_assignVisible outline_assign? h
    simp only [stack, List.map_append, hcalls, List.map_cons, hroot]
  · exact m.stack_modifyCurrent_same fun _ => rfl

end Machine

theorem Edit.stack {f : Machine → Machine} (hf : Edit f) (m : Machine) : (f m).stack = m.stack := by
  cases hf with
  | assign name v => exact m.stack_assign name v
  | declare name kind isConst v => exact m.stack_modifyCurrent_same fun _ => rfl
  | loopVar n =>
    refine m.stack_modifyCurrent_same fun a => ?_
    split
    · rfl
    · rename_i l ls hloops
      simp only [Activation.outline, hloops, List.map_cons]
  | _ => rfl

theorem Machine.stack_capture (m : Machine) (d : Duration) (label : Option String) :
    (m.capture d label).stack = m.stack := by
  obtain ⟨halt, hc⟩ := m.capture_eq d label
  rw [hc]
  rfl

theorem Machine.stack_tick (m : Machine) : m.tick.2.stack = m.stack := by
  rcases m.tick_cases with ⟨-, e⟩ | ⟨-, -, e⟩ | ⟨-, -, e⟩ <;> rw [e] <;> rfl

/-- The same activations have the same loops and the same arrays for their parameters. -/
def SameStack (m n : Machine) : Prop := n.stack = m.stack

/-- **Every computation of a run keeps the stack.** -/
theorem SameStack.step : Step SameStack where
  refl _ := rfl
  trans hmn hno := Eq.trans hno hmn
  edit m hf := hf.stack m
  sleep {m n} d _ hn := (n.endSleep.stack_capture d none).trans hn
  switchAll {m} on _ := Machine.stack_capture _ m.baseDelay (some (switchLabel on))
  tick m := m.stack_tick
  loop {m n} credit l hn := by
    have hpush : n.stack = m.stack.modifyHead fun o => { o with loops := l.name :: o.loops } :=
      Eq.trans hn ((m.grant credit).stack_pushLoop l)
    show n.popLoop.stack = m.stack
    rw [n.stack_popLoop, hpush, List.modifyHead_modifyHead]
    exact congrFun List.modifyHead_id m.stack
  learn _ _ _ := rfl
  call _ hn := Machine.stack_popCall hn
  exhaust _ := rfl

/-! ### How many calls are active -/

/-- One elementary change.  A call starts only while fewer than `maxCalls` are active. -/
inductive GuardedChange (m : Machine) : Machine → Prop
  | plain {n : Machine} : Change m n → n.calls.length ≤ m.calls.length → GuardedChange m n
  | call {a : Activation} : a.Fresh → m.calls.length < maxCalls → GuardedChange m (m.pushCall a)

/-- The state is reached by elementary changes and guarded calls. -/
abbrev Descends : Machine → Machine → Prop := Relation.ReflTransGen GuardedChange

/-- There are never more calls than may be active. -/
theorem Descends.length_le {m n : Machine} (h : Descends m n) (hm : m.calls.length ≤ maxCalls) :
    n.calls.length ≤ maxCalls := by
  induction h with
  | refl => exact hm
  | tail _ hc ih =>
    cases hc with
    | plain _ hle => exact Nat.le_trans hle ih
    | call _ hlt => exact hlt

/-- From a state with `depth` active calls, the computation leads to one with as many, by elementary changes and guarded
calls. -/
def Levels (depth : Nat) (m n : Machine) : Prop :=
  m.calls.length = depth → n.calls.length = depth ∧ Descends m n

namespace Levels

variable {depth : Nat} {m n o : Machine}

theorem refl (m : Machine) : Levels depth m m := fun hm => ⟨hm, .refl⟩

theorem trans (hmn : Levels depth m n) (hno : Levels depth n o) : Levels depth m o := by
  intro hm
  obtain ⟨hn, hpath⟩ := hmn hm
  exact ⟨(hno hn).1, hpath.trans (hno hn).2⟩

theorem plain (hc : Change m n) (hlength : n.calls.length = m.calls.length) : Levels depth m n :=
  fun hm => ⟨hlength.trans hm, .single (.plain hc (Nat.le_of_eq hlength))⟩

theorem single (hc : Change m n) (hs : SameStack m n) : Levels depth m n := plain hc (Machine.length_calls hs)

theorem workStep (depth : Nat) : WorkStep (Levels depth) where
  refl := refl
  trans := trans
  edit m hf := single (.edit hf) (hf.stack m)
  sleep {m n} d _ hn := by
    have hbegin : Levels depth m m.beginSleep := single .beginSleep rfl
    have hend : Levels depth n n.endSleep := single .endSleep rfl
    exact ((hbegin.trans hn).trans hend).trans (single (.capture d none) (n.endSleep.stack_capture d none))
  switchAll {m} on _ := by
    have hfill : Levels depth m { m with channels := m.channels.fill on } := single (.fill on) rfl
    exact hfill.trans (single (.capture m.baseDelay (some (switchLabel on))) (Machine.stack_capture _ _ _))
  tick m := single .tick m.stack_tick
  loop {m n} credit l hn := by
    have hgrant : Levels depth m (m.grant credit) := single (.grant credit) rfl
    have hpush : Levels depth (m.grant credit) ((m.grant credit).pushLoop l) :=
      plain (.pushLoop l) ((m.grant credit).length_modifyCurrent _)
    have hpop : Levels depth n n.popLoop := plain .popLoop (n.length_modifyCurrent _)
    exact (hgrant.trans hpush).trans (hn.trans hpop)
  learn m name f := single (.learn name f) rfl

theorem exhaust : Keeps (Levels depth) _ (Run.change Machine.exhaust) := fun _ => single .exhaust rfl

theorem working (depth : Nat) : Working (Keeps (Levels depth)) (KeepsLive (Levels depth)) :=
  (workStep depth).ticking.working exhaust

/-- A call that may become active adds one to the calls of its body. -/
theorem inCall (hd : depth < maxCalls) {a : Activation} (ha : a.Fresh) {x : Run Flow}
    (hx : Keeps (Levels (depth + 1)) _ x) : Keeps (Levels depth) _ (inCall a x) := by
  intro m hm
  obtain ⟨hlength, hbody⟩ := hx (m.pushCall a) (congrArg (· + 1) hm)
  have hpop : (x (m.pushCall a)).2.popCall.calls.length = depth := by
    rw [Machine.popCall, List.length_tail, hlength]
    rfl
  have hless : (x (m.pushCall a)).2.popCall.calls.length ≤ (x (m.pushCall a)).2.calls.length := by omega
  exact ⟨hpop, .tail (.head (.call ha (hm ▸ hd)) hbody) (.plain .popCall hless)⟩

/-- A call asks for its depth before it starts. -/
theorem invoke : ∀ (fuel : Nat) {depth : Nat} (f : Closure) (args : List Arg),
    (∀ a ∈ args, Keeps (Levels depth) _ a.value.run) → Keeps (Levels depth) _ (invoke fuel f args).run
  | 0, depth, _, _, _ => by
    have h := (workStep depth).operational
    refine h.evalBind ?_ fun _ => h.settle _
    exact h.bind exhaust fun _ => h.pure (Except.ok ())
  | fuel + 1, depth, f, args, ha => by
    intro m hm
    rcases Nat.lt_or_ge depth maxCalls with hlt | hle
    · have h := (workStep depth).operational
      revert m
      refine h.evalBind (h.evalRead .depth .ok) fun _ => ?_
      split
      · exact h.settle _
      · refine h.evalFollow (h.bindParams _ ha) fun m a hb => ?_
        have hfresh : a.Fresh := fresh_bindParams (Activation.fresh_empty f.isLambda) hb
        have hbody : Keeps (Levels depth) _ (runBody (environment (Procedure.invoke fuel)) f.body a) := by
          have h' := working (depth + 1)
          have hblock := h'.block (h'.environment (invoke fuel)) f.body
          refine h.bind (inCall hlt hfresh hblock) fun flow => ?_
          split <;> exact h.pure _
        exact h.bind hbody fun v => h.pure (Except.ok v)
    · rw [LastsAt.invoke_of_le (hm ▸ hle)]
      exact refl m hm

theorem program (p : Program) : Keeps (Levels 0) _ (runProgram p) := (working 0).program (invoke _) p

end Levels

/-! ### What a call does to the stack -/

/-- The computation comes back to the same stack, by elementary changes and guarded calls. -/
structure Restores (m n : Machine) : Prop where
  stack : n.stack = m.stack
  within : Descends m n

theorem Restores.of_laws {α : Type} {x : Run α} {m : Machine} (hs : Keeps SameStack α x)
    (hl : Keeps (Levels m.calls.length) α x) : Restores m (x m).2 :=
  ⟨hs m, (hl m rfl).2⟩

section

variable {fuel : Nat} {f : Closure} {args : List Arg} {m m' : Machine}

/-- A call whose arguments fail ends where they failed. -/
theorem invoke_of_error {e : EvalError} (hd : m.calls.length < maxCalls)
    (hb : (bindParams { Activation.empty with transparent := f.isLambda } f.params args).run m = (.error e, m')) :
    (invoke (fuel + 1) f args).run m = (.error e, m') := by
  have hdepth : (Eval.read fun m => .ok m.calls.length).run m = (.ok m.calls.length, m) := rfl
  rw [invoke, ExceptT.run_bind, bind_of_eq hdepth]
  show (if maxCalls ≤ m.calls.length then _ else _ : Eval Value).run m = _
  rw [if_neg (Nat.not_le.2 hd), ExceptT.run_bind, bind_of_eq hb]
  rfl

end

/-- The arguments of a call, which stand for the parameters of a closure. -/
abbrev bound (fuel : Nat) (f : Closure) (es : List Expr) : Eval Activation :=
  bindParams { Activation.empty with transparent := f.isLambda } f.params
    (Expr.arguments (environment (invoke (fuel + 1))) .integer es)

/-- What can be run in a state keeps its stack.  A call is refused as it stands if it would be one too many, and ends
where its arguments failed if they did; else the body starts on top of the same stack, and one call deeper. -/
structure Disciplined (fuel : Nat) (m : Machine) : Prop where
  block (ss : List Stmt) : Restores m (execBlock (environment (invoke fuel)) ss m).2
  eval (e : Expr) : Restores m ((e.eval (environment (invoke fuel)) .integer).run m).2
  call (f : Closure) (es : List Expr) :
    Restores m ((invoke fuel f (Expr.arguments (environment (invoke fuel)) .integer es)).run m).2
  refused (f : Closure) (args : List Arg) : maxCalls ≤ m.calls.length →
    (invoke (fuel + 1) f args).run m = (.error .callDepth, m)
  failed (f : Closure) (es : List Expr) (e : EvalError) (m' : Machine) : m.calls.length < maxCalls →
    (bound fuel f es).run m = (.error e, m') → Restores m m' ∧
      (invoke (fuel + 1) f (Expr.arguments (environment (invoke (fuel + 1))) .integer es)).run m = (.error e, m')
  body (f : Closure) (es : List Expr) (a : Activation) (m' : Machine) : m.calls.length < maxCalls →
    (bound fuel f es).run m = (.ok a, m') → Restores m m' ∧
      (m'.pushCall a).stack = a.outline :: m.stack ∧ Descends m (m'.pushCall a) ∧
      ((invoke (fuel + 1) f (Expr.arguments (environment (invoke (fuel + 1))) .integer es)).run m).2 =
        (execBlock (environment (invoke fuel)) f.body (m'.pushCall a)).2.popCall

theorem disciplined (fuel : Nat) (m : Machine) : Disciplined fuel m := by
  have hs := SameStack.step.lawful
  have hl := Levels.working m.calls.length
  have hle := fun fuel => hl.environment (Levels.invoke fuel)
  have hse := fun fuel => hs.environment (hs.invoke fuel)
  have hbound (f : Closure) (es : List Expr) : Restores m ((bound fuel f es).run m).2 :=
    .of_laws (hs.bindParams _ (hs.arguments (hse _) fun _ _ => trivial))
      (hl.bindParams _ (hl.arguments (hle _) fun _ _ => trivial))
  refine ⟨fun ss => ?_, fun e => ?_, fun f es => ?_, fun f args hd => ?_, fun f es e m' hd hb => ?_,
    fun f es a m' hd hb => ?_⟩
  · exact .of_laws (hs.working.block (hse fuel) ss) (hl.block (hle fuel) ss)
  · exact .of_laws (hs.eval (hse fuel) fun _ _ => trivial) (hl.eval (hle fuel) fun _ _ => trivial)
  · exact .of_laws (hs.invoke fuel f _ (hs.arguments (hse fuel) fun _ _ => trivial))
      (Levels.invoke fuel f _ (hl.arguments (hle fuel) fun _ _ => trivial))
  · exact LastsAt.invoke_of_le hd fuel f args
  · have hm' := hbound f es
    rw [hb] at hm'
    exact ⟨hm', invoke_of_error hd hb⟩
  · have hm' := hbound f es
    rw [hb] at hm'
    have hfresh : a.Fresh := fresh_bindParams (Activation.fresh_empty f.isLambda) (congrArg Prod.fst hb)
    have hless : m'.calls.length < maxCalls := Machine.length_calls hm'.stack ▸ hd
    refine ⟨hm', ?_, hm'.within.tail (.call hfresh hless), invoke_state hd hb⟩
    rw [Machine.stack_pushCall, hm'.stack]

end RunningLights.Procedure

namespace RunningLights.Simulation

open Procedure

/-- **The stack of activations.**  The run of any commands goes by elementary changes and guarded calls, and ends with
the stack of its start.  In every state that is reached so there are at most `maxCalls` calls and the program itself,
and the stack is kept by all that can be run there, however it ends; a call that is refused, or whose arguments fail,
starts nothing. -/
theorem stack_discipline (total : Nat) (baseDelay : Duration) (limits : RunLimits) (commands : List Command) :
    Restores (startMachine total baseDelay limits commands) (finalMachine total baseDelay limits commands) ∧
    ∀ m, Descends (startMachine total baseDelay limits commands) m →
      m.stack.length ≤ maxCalls + 1 ∧ ∀ fuel, Disciplined fuel m := by
  refine ⟨.of_laws (SameStack.step.lawful.program _) (Levels.program _), fun m hm => ?_⟩
  have hlength : m.calls.length ≤ maxCalls := hm.length_le (Nat.zero_le _)
  exact ⟨m.length_stack ▸ Nat.succ_le_succ hlength, fun fuel => disciplined fuel m⟩

/-- A state in which so many functions without parameters are active. -/
def nested (k : Nat) : Machine := { tenUnits with calls := List.replicate k .empty }

theorem descends_nested : ∀ k, k ≤ maxCalls → Descends tenUnits (nested k)
  | 0, _ => .refl
  | k + 1, hk => by
    have hlength : (nested k).calls.length < maxCalls := Nat.lt_of_le_of_lt (Nat.le_of_eq List.length_replicate) hk
    exact (descends_nested k (Nat.le_of_succ_le hk)).tail (.call (Activation.fresh_empty false) hlength)

theorem stack_discipline_nested :
    Descends tenUnits (nested maxCalls) ∧ (nested maxCalls).stack.length = maxCalls + 1 ∧
      (invoke 1 (marker false) []).run (nested maxCalls) = (.error .callDepth, nested maxCalls) := by
  have hfull : Descends tenUnits (nested maxCalls) := descends_nested maxCalls (Nat.le_refl _)
  have hd := (stack_discipline 2 (.ofMillis 30) ⟨10, 600, 0⟩ [.act .allOn]).2 (nested maxCalls) hfull
  exact ⟨hfull, rfl, (hd.2 0).refused (marker false) [] (Nat.le_refl _)⟩

end RunningLights.Simulation
