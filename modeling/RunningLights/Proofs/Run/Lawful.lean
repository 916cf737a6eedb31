import RunningLights.Proofs.Run.Law

/-!
# Laws of statements

What holds of the elementary computations of a run holds of its statements, its calls and the run itself:

* `Active.act` — of a simple statement, which runs only on a machine that has not halted;
* `Working.block` — of statements, by induction on them;
* `Lawful.invoke` — of calls, by induction on the calls that may still become active;
* `Lawful.program` — of a run.
-/

namespace RunningLights.Procedure

/-! ### Simple statements -/

section

variable {C A : Law} {P : String → Prop} {env : Environment Eval}

namespace Operational

variable (h : Operational C) (he : Obeys C P env)
include h he

theorem operand {o : Operand} (hP : ∀ n ∈ o.calls, P n) : C _ (Operand.eval env o).run := by
  unfold Operand.eval
  unfold Operand.calls at hP
  split
  · rename_i e ho
    rw [ho] at hP
    exact h.eval he hP
  · exact h.settle _

theorem operandInt {o : Operand} (hP : ∀ n ∈ o.calls, P n) : C _ (Operand.evalInt env o).run :=
  h.evalBind (h.operand he hP) fun _ => h.settle _

theorem valueOrZero {o : Operand} (hP : ∀ n ∈ o.calls, P n) : C _ (Operand.valueOrZero env o) :=
  h.orElse (h.operand he hP) _

theorem holds {o : Operand} (hP : ∀ n ∈ o.calls, P n) : C _ (Operand.holds env o) :=
  h.orElse (h.evalBind (h.operand he hP) fun _ => h.evalPure _) _

theorem argument {o : Operand} (hP : ∀ n ∈ o.calls, P n) : C _ (Operand.argument env o).value.run := by
  obtain ⟨text, tree⟩ := o
  cases tree with
  | some e => exact h.eval he hP
  | none => exact h.evalPure (Value.int 0)

theorem setChannel {channel state : Operand} (hc : ∀ n ∈ channel.calls, P n) (hs : ∀ n ∈ state.calls, P n) :
    C _ (setChannel env channel state) := by
  refine h.bind (h.query .total) fun total => ?_
  split
  · exact h.pure ()
  · refine h.bind (h.orElse (h.operandInt he hc) _) fun i => ?_
    exact h.bind (h.holds he hs) fun on => h.edit (.channel _ on)

theorem holdTime {delay : Option Operand} (hP : ∀ o ∈ delay, ∀ n ∈ o.calls, P n) : C _ (holdTime env delay) := by
  cases delay with
  | none => exact h.query .baseDelay
  | some o =>
    refine h.bind (h.attempt (h.operandInt he (hP o rfl))) fun ms => ?_
    cases ms with
    | some ms => exact h.pure _
    | none => exact h.query .baseDelay

theorem scalarValue {i : Initializer} (hP : ∀ n ∈ i.calls, P n) : C _ (scalarValue env i) := by
  cases i with
  | none => exact h.pure _
  | scalar o => exact h.valueOrZero he hP
  | rows rows =>
    simp only [Procedure.scalarValue]
    split
    · rename_i o ho
      obtain ⟨row, hr, ho⟩ := Option.bind_eq_some_iff.1 ho
      refine h.valueOrZero he fun n hn => hP n ?_
      have hm : o ∈ rows.flatten := List.mem_flatten.2 ⟨row, List.mem_of_head? hr, List.mem_of_head? ho⟩
      exact List.mem_flatMap.2 ⟨o, hm, hn⟩
    · exact h.pure _

theorem arraySizes : ∀ {os : List Operand}, (∀ o ∈ os, ∀ n ∈ o.calls, P n) → C _ (arraySizes env os)
  | [], _ => h.pure []
  | o :: os, hP => by
    have hs := arraySizes fun o ho => hP o (List.mem_cons_of_mem _ ho)
    unfold Procedure.arraySizes
    split
    · exact h.bind (h.pure none) fun _ => h.bind hs fun _ => h.pure _
    · refine h.bind (h.attempt (h.operandInt he (hP o List.mem_cons_self))) fun _ => ?_
      exact h.bind hs fun _ => h.pure _

theorem fillRow : ∀ {os : List Operand} {a : TypedArray} {place : Nat}, (∀ o ∈ os, ∀ n ∈ o.calls, P n) →
    C _ (fillRow env a place os)
  | [], a, _, _ => h.pure a
  | o :: os, a, place, hP => by
    unfold Procedure.fillRow
    split
    · exact h.bind (h.edit (.place _)) fun _ => h.pure a
    · refine h.bind (h.valueOrZero he (hP o List.mem_cons_self)) fun v => ?_
      exact fillRow fun o ho => hP o (List.mem_cons_of_mem _ ho)

theorem fillRows {stride : Nat} : ∀ {rows : List (List Operand)} {a : TypedArray} {place : Nat},
    (∀ row ∈ rows, ∀ o ∈ row, ∀ n ∈ o.calls, P n) → C _ (fillRows env stride a place rows)
  | [], a, _, _ => h.pure a
  | row :: rows, a, place, hP => by
    refine h.bind (h.fillRow he (hP row List.mem_cons_self)) fun a => ?_
    exact fillRows fun row hr => hP row (List.mem_cons_of_mem _ hr)

theorem fillArray {a : TypedArray} {rows : List (List Operand)} (hP : ∀ row ∈ rows, ∀ o ∈ row, ∀ n ∈ o.calls, P n) :
    C _ (fillArray env a rows) := by
  unfold Procedure.fillArray
  split
  · exact h.fillRows he hP
  · refine h.fillRows he fun row hr o ho => ?_
    obtain ⟨whole, hw, rfl⟩ := List.mem_map.1 hr
    exact hP whole hw o (List.mem_of_mem_take ho)

theorem declareArray {d : VarDecl} (hs : ∀ o ∈ d.sizes, ∀ n ∈ o.calls, P n) (hi : ∀ n ∈ d.initializer.calls, P n) :
    C _ (declareArray env d) := by
  unfold Procedure.declareArray
  refine h.bind (h.arraySizes he hs) fun sizes => ?_
  split
  · exact h.pure ()
  · split
    · exact h.pure ()
    · have hzero := TypedArray.sound_zeroed d.kind (Nat.not_lt.1 ‹_›)
      refine h.follow (h.fillArray he ?_) fun m => h.edit (.setArray d.name (sound_fillArray _ hzero))
      intro row hr o ho n hn
      split at hr
      · rename_i rows hrows
        rw [hrows] at hi
        exact hi n (List.mem_flatMap.2 ⟨o, List.mem_flatten.2 ⟨row, hr, ho⟩, hn⟩)
      · cases hr

theorem declareVar {d : VarDecl} (hs : ∀ o ∈ d.sizes, ∀ n ∈ o.calls, P n) (hi : ∀ n ∈ d.initializer.calls, P n) :
    C _ (declareVar env d) := by
  unfold Procedure.declareVar
  split
  · exact h.declareArray he hs hi
  · exact h.bind (h.scalarValue he hi) fun v => h.edit (.declare d.name d.kind d.isConst v)

theorem evalPlace : ∀ {os : List Operand}, (∀ o ∈ os, ∀ n ∈ o.calls, P n) → C _ (evalPlace env os).run
  | [], _ => h.evalPure []
  | o :: os, hP => by
    refine h.evalBind (h.operandInt he (hP o List.mem_cons_self)) fun n => ?_
    exact h.evalBind (evalPlace fun o ho => hP o (List.mem_cons_of_mem _ ho)) fun ns => h.evalPure _

theorem assign {target : String} {indices : List Operand} {op : AssignOp} {value : Option Operand}
    (hi : ∀ o ∈ indices, ∀ n ∈ o.calls, P n) (hv : ∀ o ∈ value, ∀ n ∈ o.calls, P n) :
    C _ (assign env target indices op value) := by
  have hnew : ∀ new, C _ (if indices.isEmpty then assignScalar target op new
      else assignElement env target indices op new) := by
    intro new
    split
    · exact h.bind (h.query (.lookup target)) fun old => h.edit (.assign target _)
    · refine h.bind (h.attempt (h.evalPlace he hi)) fun place => ?_
      cases place with
      | none => exact h.pure ()
      | some place => exact h.edit (.element target place fun old => assigned op old new)
  cases value with
  | some o => exact h.bind (h.valueOrZero he (hv o rfl)) hnew
  | none => exact h.bind (h.pure (Value.int 1)) hnew

theorem callFor {name : String} {args : List Operand} (hn : P name) (ha : ∀ o ∈ args, ∀ n ∈ o.calls, P n) :
    C _ (callFor env name args) := by
  refine h.bind (h.attempt (he.call hn ?_)) fun _ => h.pure ()
  intro a hm
  obtain ⟨o, ho, rfl⟩ := List.mem_map.1 hm
  exact h.argument he (ha o ho)

end Operational

theorem Active.act (h : Active C A) (he : Obeys C P env) {a : Action} (hP : ∀ n ∈ a.calls, P n) :
    A _ (act env a) := by
  cases a with
  | set channel state =>
    exact h.weaken (h.setChannel he (fun n hn => hP n (List.mem_append_left _ hn))
      fun n hn => hP n (List.mem_append_right _ hn))
  | sleep delay =>
    refine h.sleepFor (h.holdTime he fun o ho n hn => hP n ?_)
    exact List.mem_flatMap.2 ⟨o, Option.mem_toList.2 ho, hn⟩
  | allOn => exact h.switchAll _
  | allOff => exact h.switchAll _
  | declare d =>
    refine h.weaken (h.declareVar he (fun o ho n hn => hP n (List.mem_append_left _ ?_))
      fun n hn => hP n (List.mem_append_right _ hn))
    exact List.mem_flatMap.2 ⟨o, ho, hn⟩
  | assign target indices op value =>
    refine h.weaken (h.assign he (fun o ho n hn => hP n (List.mem_append_left _ ?_))
      fun o ho n hn => hP n (List.mem_append_right _ ?_))
    · exact List.mem_flatMap.2 ⟨o, ho, hn⟩
    · exact List.mem_flatMap.2 ⟨o, Option.mem_toList.2 ho, hn⟩
  | callBuiltin b args =>
    refine h.weaken (h.callFor he (hP _ List.mem_cons_self) fun o ho n hn => hP n (List.mem_cons_of_mem _ ?_))
    exact List.mem_flatMap.2 ⟨o, ho, hn⟩
  | callUser name args =>
    refine h.weaken (h.callFor he (hP _ List.mem_cons_self) fun o ho n hn => hP n (List.mem_cons_of_mem _ ?_))
    exact List.mem_flatMap.2 ⟨o, ho, hn⟩

end

/-! ### Statements -/

section

variable {C A : Law} {P : String → Prop} {env : Environment Eval}

theorem Operational.loopRange (h : Operational C) (he : Obeys C P env) {l : LoopHeader} (hP : ∀ n ∈ l.calls, P n) :
    C _ (loopRange env l) := by
  have hs : ∀ n ∈ l.start.calls, P n := fun n hn => hP n (by simp [LoopHeader.calls, hn])
  have hb : ∀ n ∈ l.bound.calls, P n := fun n hn => hP n (by simp [LoopHeader.calls, hn])
  have hk : ∀ n ∈ l.step.calls, P n := fun n hn => hP n (by simp [LoopHeader.calls, hn])
  refine h.bind (h.valueOrZero he hs) fun start => ?_
  refine h.bind (h.attempt (h.operandInt he hb)) fun bound => ?_
  cases bound with
  | none => exact h.pure none
  | some bound => exact h.bind (h.orElse (h.operandInt he hk) _) fun step => h.pure _

theorem Ticking.countedPasses (h : Ticking C A) {body : Run Flow} (hb : C _ body) (valueAt : Nat → Int64) :
    ∀ left k, C _ (countedPasses body valueAt left k)
  | 0, _ => h.pure Flow.normal
  | left + 1, k => by
    refine h.ticked (h.weaken ?_) (h.pure Flow.halt)
    refine h.bind (h.edit (.loopVar (valueAt k))) fun _ => h.bind hb fun flow => ?_
    cases flow with
    | normal => exact h.countedPasses hb valueAt left (k + 1)
    | _ => exact h.pure _

theorem Ticking.testedPasses (h : Ticking C A) (hexhaust : C Unit (Run.change Machine.exhaust)) {body : Run Flow}
    {again : Run Bool} (hb : C _ body) (ha : C _ again) : ∀ fuel, C _ (testedPasses body again fuel)
  | 0 => h.bind hexhaust fun _ => h.pure Flow.halt
  | fuel + 1 => by
    refine h.bind hb fun flow => ?_
    cases flow with
    | normal =>
      refine h.ticked (h.weaken (h.bind ha fun more => ?_)) (h.pure Flow.halt)
      split
      · exact h.testedPasses hexhaust hb ha fuel
      · exact h.pure Flow.normal
    | _ => exact h.pure _

/-- A law that also holds of fuel that is used up holds of loops that are tested at their end. -/
theorem Ticking.working (h : Ticking C A) (hexhaust : C Unit (Run.change Machine.exhaust)) : Working C A where
  toTicking := h
  runTested hb ha := h.bind (h.query .workLeft) fun _ => h.testedPasses hexhaust hb ha _

theorem Ticking.runLoop (h : Ticking C A) (he : Obeys C (fun _ => True) env) {l : LoopHeader} {cost : Nat}
    {body : Run Flow} (hb : C _ body) : C _ (runLoop env l cost body) := by
  refine h.bind (h.loopRange he fun _ _ => trivial) fun range => ?_
  cases range with
  | none => exact h.pure Flow.normal
  | some range => exact h.inLoop _ _ (h.countedPasses hb _ _ 0)

mutual

theorem Working.stmt (h : Working C A) (he : Obeys C (fun _ => True) env) : ∀ s : Stmt, A _ (execStmt env s)
  | .act a => h.andThen (h.act he fun _ _ => trivial) fun _ => h.bind (h.query .halted) fun _ => h.pure _
  | .ret none => h.weaken (h.pure _)
  | .ret (some o) => h.weaken (h.bind (h.valueOrZero he fun _ _ => trivial) fun v => h.pure _)
  | .loop l body => h.weaken (h.runLoop he (h.block he body))
  | .branch c yes no => by
    refine h.weaken (h.bind (h.holds he fun _ _ => trivial) fun v => ?_)
    split
    · exact h.block he yes
    · exact h.block he no
  | .doLoop body c => by
    refine h.weaken (h.runTested (h.block he body) ?_)
    cases c with
    | none => exact h.pure false
    | some c => exact h.holds he fun _ _ => trivial
  | .lambda name _ params body => h.weaken (h.bind (h.learn name _) fun _ => h.pure Flow.normal)

theorem Working.block (h : Working C A) (he : Obeys C (fun _ => True) env) : ∀ ss : List Stmt, C _ (execBlock env ss)
  | [] => h.pure Flow.normal
  | s :: ss => by
    refine h.ticked (h.andThen (h.stmt he s) fun flow => ?_) (h.pure Flow.halt)
    cases flow with
    | normal => exact h.block he ss
    | _ => exact h.pure _

end

/-! ### Calls and programs -/

theorem Operational.bindParams (h : Operational C) : ∀ (ps : List String) {args : List Arg} {a : Activation},
    (∀ arg ∈ args, C _ arg.value.run) → C _ (bindParams a ps args).run
  | [], _, a, _ => h.evalPure a
  | _ :: ps, [], _, ha => h.bindParams ps ha
  | _ :: ps, arg :: args, a, ha => by
    have hrest : ∀ arg ∈ args, C _ arg.value.run := fun b hb => ha b (List.mem_cons_of_mem _ hb)
    refine h.evalBind (h.evalRead (.passed arg) .ok) fun target => ?_
    cases target with
    | some target => exact h.bindParams ps hrest
    | none => exact h.evalBind (ha arg List.mem_cons_self) fun v => h.bindParams ps hrest

/-- **Calls.**  A law of library functions and of the calls of the functions of a program is one of their
environment. -/
theorem Operational.environment (h : Operational C) {invoke : Closure → List Arg → Eval Value}
    (hi : ∀ f args, (∀ a ∈ args, C _ a.value.run) → C _ (invoke f args).run) :
    Obeys C (fun _ => True) (environment invoke) where
  lookup name := h.query (.lookup name)
  element name indices := h.query (.element name indices)
  call {name args} _ ha := by
    simp only [Procedure.environment]
    split
    · exact h.callBuiltin _ ha
    · exact h.evalBind (h.query (.closure name)) fun f => hi f args ha

theorem Working.defineFunctions (h : Working C A) : ∀ fs : List FunctionDef,
    C _ (Run.change fun m => defineFunctions m fs)
  | [] => h.pure ()
  | f :: fs => h.bind (h.learn f.name ⟨f.name, f.params, f.body, false⟩) fun _ => h.defineFunctions fs

/-- A law of the calls of the functions of a program is one of its run. -/
theorem Working.program (h : Working C A)
    (hi : ∀ f args, (∀ a ∈ args, C _ a.value.run) → C _ (invoke (maxCalls + 1) f args).run) (p : Program) :
    C _ (runProgram p) := by
  refine h.bind (h.defineFunctions p.functions) fun _ => ?_
  refine h.bind (h.block (h.environment hi) p.body) fun flow => ?_
  cases flow with
  | normal =>
    simp only
    split
    · exact h.bind (h.attempt (hi _ _ fun _ ha => by cases ha)) fun _ => h.pure ()
    · exact h.pure ()
  | _ => exact h.pure ()

namespace Lawful

variable (h : Lawful C A)
include h

theorem working : Working C A := h.toTicking.working h.exhaust

theorem runBody (he : Obeys C (fun _ => True) env) (body : List Stmt) {a : Activation} (ha : a.Fresh) :
    C _ (runBody env body a) := by
  refine h.bind (h.inCall ha (h.working.block he body)) fun flow => ?_
  split <;> exact h.pure _

theorem invoke : ∀ (fuel : Nat) (f : Closure) (args : List Arg), (∀ a ∈ args, C _ a.value.run) →
    C _ (invoke fuel f args).run
  | 0, _, _, _ => by
    refine h.evalBind ?_ fun _ => h.settle _
    exact h.bind h.exhaust fun _ => h.pure (Except.ok ())
  | fuel + 1, f, args, ha => by
    refine h.evalBind (h.evalRead .depth .ok) fun depth => ?_
    split
    · exact h.settle _
    · refine h.evalFollow (h.bindParams _ ha) fun m a hb => ?_
      have hfresh : a.Fresh := fresh_bindParams (Activation.fresh_empty f.isLambda) hb
      exact h.bind (h.runBody (h.environment (invoke fuel)) f.body hfresh) fun v => h.pure (Except.ok v)

/-- **Runs.**  What composes and holds of the elementary computations holds of the run of a program. -/
theorem program (p : Program) : C _ (runProgram p) := h.working.program (h.invoke _) p

end Lawful

end

end RunningLights.Procedure
