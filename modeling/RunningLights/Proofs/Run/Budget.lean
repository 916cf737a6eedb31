import RunningLights.Procedure.Simulation
import RunningLights.Proofs.Program.Cost
import RunningLights.Proofs.Run.Relation

/-!
# The work limit of plain programs

A plain program has no loop that is tested at its end and calls no function of its own.  What its loops are granted
when they start pays for all that they do, so that only the ceiling can end its run:

* `Solvent` — so much work is still paid for, or the limit is as high as it gets;
* `Spends` — the computations that do no more than so much work that is not paid for by themselves;
* `Spends.block` — statements spend what one straight pass through them costs;
* `Simulation.executed_of_limitHit` — a plain program that was ended by the limit has done all work up to the
  ceiling.
-/

namespace RunningLights.Procedure

variable {made : String → Prop}

/-! ### What leaves the account alone -/

def Knows (made : String → Prop) (m : Machine) : Prop := ∀ name f, m.functions.get? name = some f → made name

/-- The functions and the account of the work are the same. -/
structure SameAccount (m n : Machine) : Prop where
  functions : n.functions = m.functions
  work : n.work = m.work
  limit : n.limit = m.limit
  limitHit : n.limitHit = m.limitHit

theorem SameAccount.trans {m n o : Machine} (h : SameAccount m n) (k : SameAccount n o) : SameAccount m o :=
  ⟨k.functions.trans h.functions, k.work.trans h.work, k.limit.trans h.limit, k.limitHit.trans h.limitHit⟩

theorem sameAccount_modifyCurrent (m : Machine) (g : Activation → Activation) :
    SameAccount m (m.modifyCurrent g) := by
  obtain ⟨calls, root, hg⟩ := m.modifyCurrent_eq g
  rw [hg]
  exact ⟨rfl, rfl, rfl, rfl⟩

theorem sameAccount_capture (m : Machine) (d : Duration) (label : Option String) :
    SameAccount m (m.capture d label) := by
  obtain ⟨halt, hc⟩ := m.capture_eq d label
  rw [hc]
  exact ⟨rfl, rfl, rfl, rfl⟩

/-- The account is the same, if only functions that the program makes were known before. -/
def Quiet (made : String → Prop) (m n : Machine) : Prop := Knows made m → SameAccount m n

namespace Quiet

theorem editStep : EditStep (Quiet made) where
  refl _ _ := ⟨rfl, rfl, rfl, rfl⟩
  trans hmn hno h := by
    have hs := hmn h
    refine hs.trans (hno ?_)
    unfold Knows
    rw [hs.functions]
    exact h
  edit m hf _ := by
    obtain ⟨channels, calls, root, arrays, generator, failed, -, hm⟩ := hf.spec m
    rw [hm]
    exact ⟨rfl, rfl, rfl, rfl⟩

theorem active : Active (Keeps (Quiet made)) (Keeps (Quiet made)) where
  toOperational := editStep.operational
  weaken hx := hx
  andThen := editStep.operational.bind
  sleepFor {time} ht m h := by
    obtain ⟨hf, hw, hl, hh⟩ := ht m.beginSleep h
    have hs : SameAccount m (time m.beginSleep).2.endSleep := ⟨hf, hw, hl, hh⟩
    exact hs.trans (sameAccount_capture _ (time m.beginSleep).1 none)
  switchAll on m _ := by
    have hs : SameAccount m { m with channels := m.channels.fill on } := ⟨rfl, rfl, rfl, rfl⟩
    exact hs.trans (sameAccount_capture _ _ _)

/-- A call of a function that the program does not make is one of a library function, or it fails. -/
theorem environment (invoke : Closure → List Arg → Eval Value) :
    Obeys (Keeps (Quiet made)) (Foreign made) (environment invoke) where
  lookup name := editStep.operational.query (.lookup name)
  element name indices := editStep.operational.query (.element name indices)
  call {name args} hP ha := by
    simp only [Procedure.environment]
    split
    · exact editStep.operational.callBuiltin _ ha
    · rename_i hb
      intro m hk
      have hn : m.functions.get? name = none := by
        cases hf : m.functions.get? name with
        | none => rfl
        | some f => exact absurd (hk name f hf) (hP hb)
      show SameAccount m (ExceptT.bindCont (fun f => invoke f args) (m.function name) m).2
      rw [Machine.function_of_none hn]
      exact ⟨rfl, rfl, rfl, rfl⟩

end Quiet

/-! ### What is paid for -/

/-- So much work is paid for, unless the limit is at the ceiling; and if the limit was hit, it is there. -/
structure Solvent (made : String → Prop) (ceiling credit : Nat) (m : Machine) : Prop where
  knows : Knows made m
  top : max maxWork m.limit = ceiling
  paid : m.limit = ceiling ∨ m.work + credit ≤ m.limit
  hit : m.limitHit = true → m.limit = ceiling ∧ ceiling ≤ m.work

namespace Solvent

variable {ceiling credit : Nat} {m n : Machine}

theorem mono {less : Nat} (h : Solvent made ceiling credit m) (hle : less ≤ credit) :
    Solvent made ceiling less m :=
  ⟨h.knows, h.top, h.paid.imp_right fun hp => by omega, h.hit⟩

theorem congr (h : Solvent made ceiling credit m) (hs : SameAccount m n) : Solvent made ceiling credit n := by
  obtain ⟨hf, hw, hl, hh⟩ := hs
  refine ⟨?_, ?_, ?_, ?_⟩
  · unfold Knows
    rw [hf]
    exact h.knows
  · rw [hl]
    exact h.top
  · rw [hl, hw]
    exact h.paid
  · rw [hh, hl, hw]
    exact h.hit

/-- One unit of work is taken from what is paid for. -/
theorem tick (h : Solvent made ceiling (credit + 1) m) : Solvent made ceiling credit m.tick.2 := by
  obtain ⟨knows, top, paid, hit⟩ := h
  rcases m.tick_cases with ⟨-, e⟩ | ⟨-, hlt, e⟩ | ⟨-, hle, e⟩ <;> rw [e]
  · exact ⟨knows, top, paid.imp_right fun hp => Nat.le_of_succ_le hp, hit⟩
  · -- only at the ceiling can work be refused: else it would have been paid for
    have hc : m.limit = ceiling := by omega
    exact ⟨knows, top, .inl hc, fun _ => ⟨hc, by simp only; omega⟩⟩
  · refine ⟨knows, top, paid.imp_right fun hp => by simp only; omega, fun hh => ?_⟩
    obtain ⟨hl, hw⟩ := hit hh
    exact ⟨hl, Nat.le_succ_of_le hw⟩

/-- What is granted is paid for, up to the ceiling. -/
theorem grant (h : Solvent made ceiling credit m) (more : Nat) :
    Solvent made ceiling (credit + more) (m.grant more) := by
  obtain ⟨knows, top, paid, hit⟩ := h
  refine ⟨knows, ?_, ?_, fun hh => ?_⟩
  · simp only [Machine.grant]
    omega
  · simp only [Machine.grant]
    omega
  · obtain ⟨hl, hw⟩ := hit hh
    simp only [Machine.grant]
    omega

end Solvent

/-- The computations that do no more than so much work, apart from what they are granted for. -/
def Spends (made : String → Prop) (ceiling cost : Nat) : Law := fun _ x =>
  ∀ credit m, Solvent made ceiling (credit + cost) m → Solvent made ceiling credit (x m).2

namespace Spends

variable {α β : Type} {ceiling cost : Nat}

theorem of_quiet {x : Run α} (h : Keeps (Quiet made) α x) : Spends made ceiling 0 α x :=
  fun _ m hm => hm.congr (h m hm.knows)

theorem pure (a : α) : Spends made ceiling 0 α (pure a) := fun _ _ hm => hm

theorem mono {n : Nat} {x : Run α} (h : Spends made ceiling n α x) (hle : n ≤ cost) :
    Spends made ceiling cost α x :=
  fun credit m hm => h credit m (hm.mono (Nat.add_le_add_left hle credit))

theorem bind {more : Nat} {x : Run α} {f : α → Run β} (hx : Spends made ceiling cost α x)
    (hf : ∀ a, Spends made ceiling more β (f a)) : Spends made ceiling (cost + more) β (x >>= f) := by
  intro credit m hm
  refine hf _ credit _ (hx (credit + more) m (hm.mono ?_))
  omega

/-- What no work is spent on may come first. -/
theorem andThen {x : Run α} {f : α → Run β} (hx : Keeps (Quiet made) α x)
    (hf : ∀ a, Spends made ceiling cost β (f a)) : Spends made ceiling cost β (x >>= f) :=
  (Spends.bind (of_quiet hx) hf).mono (Nat.le_of_eq (Nat.zero_add cost))

/-- What no work is spent on may come last. -/
theorem andQuiet {x : Run α} {f : α → Run β} (hx : Spends made ceiling cost α x)
    (hf : ∀ a, Keeps (Quiet made) β (f a)) : Spends made ceiling cost β (x >>= f) :=
  Spends.bind hx fun a => of_quiet (hf a)

theorem ticked {x y : Run α} (hx : Spends made ceiling cost α x) (hy : Keeps (Quiet made) α y) :
    Spends made ceiling (1 + cost) α (do if ← Machine.tick then x else y) := by
  intro credit m hm
  have ht : Solvent made ceiling (credit + cost) m.tick.2 := Solvent.tick (hm.mono (by omega))
  show Solvent made ceiling credit ((if m.tick.1 then x else y) m.tick.2).2
  split
  · exact hx credit _ ht
  · exact ((of_quiet hy).mono (Nat.zero_le cost)) credit _ ht

theorem inLoop (credit : Nat) (l : LoopVar) {x : Run Flow} (hx : Spends made ceiling credit _ x) :
    Spends made ceiling 0 _ (inLoop credit l x) := by
  intro rest m hm
  have hg : Solvent made ceiling (rest + credit) ((m.grant credit).pushLoop l) :=
    (hm.grant credit).congr (sameAccount_modifyCurrent _ _)
  show Solvent made ceiling rest (x ((m.grant credit).pushLoop l)).2.popLoop
  exact (hx rest _ hg).congr (sameAccount_modifyCurrent _ _)

theorem inCall (a : Activation) {x : Run Flow} (hx : Spends made ceiling cost _ x) :
    Spends made ceiling cost _ (inCall a x) := by
  intro credit m hm
  have hp : Solvent made ceiling (credit + cost) (m.pushCall a) := hm.congr ⟨rfl, rfl, rfl, rfl⟩
  exact (hx credit _ hp).congr ⟨rfl, rfl, rfl, rfl⟩

theorem learn {name : String} (hn : made name) (f : Closure) :
    Spends made ceiling 0 _ (Run.change fun m => { m with functions := m.functions.set name f }) := by
  intro credit m hm
  exact ⟨Bindings.forall_get?_set hm.knows hn, hm.top, hm.paid, hm.hit⟩

/-! ### Statements -/

variable {env : Environment Eval}

theorem countedPasses {body : Run Flow} (hb : Spends made ceiling cost _ body) (valueAt : Nat → Int64) :
    ∀ left k, Spends made ceiling (left * (1 + cost)) _ (countedPasses body valueAt left k)
  | 0, _ => (pure Flow.normal).mono (Nat.zero_le _)
  | left + 1, k => by
    refine mono (n := 1 + (cost + left * (1 + cost))) (ticked ?_ (Quiet.editStep.operational.pure Flow.halt)) ?_
    · refine andThen (Quiet.editStep.operational.edit (.loopVar (valueAt k))) fun _ => hb.bind fun flow => ?_
      cases flow with
      | normal => exact countedPasses hb valueAt left (k + 1)
      | _ => exact (pure _).mono (Nat.zero_le _)
    · rw [Nat.succ_mul]
      omega

/-- A counted loop is granted the work of all its passes. -/
theorem runLoop (he : Obeys (Keeps (Quiet made)) (Foreign made) env) {l : LoopHeader}
    (hl : ∀ name ∈ l.calls, Foreign made name) {body : Run Flow} (hb : Spends made ceiling cost _ body) :
    Spends made ceiling 0 _ (runLoop env l cost body) := by
  refine andThen (Quiet.editStep.operational.loopRange he hl) fun range => ?_
  cases range with
  | none => exact pure Flow.normal
  | some range => exact inLoop _ _ (countedPasses hb _ _ 0)

end Spends

mutual

/-- A statement that was admitted, which is one unit of its cost, spends the rest of it. -/
theorem Spends.stmt {ceiling : Nat} {env : Environment Eval} (he : Obeys (Keeps (Quiet made)) (Foreign made) env) :
    ∀ {s : Stmt}, s.Plain made → Spends made ceiling (stmtCost s - 1) _ (execStmt env s)
  | .act a, hs => by
    refine andThen (Quiet.active.act he hs) fun _ => of_quiet ?_
    exact Quiet.editStep.operational.read .halted fun halted => if halted then Flow.halt else .normal
  | .ret none, _ => pure _
  | .ret (some o), hs =>
    andThen (Quiet.editStep.operational.valueOrZero he (hs o rfl)) fun v => pure _
  | .loop l body, hs => Spends.runLoop he hs.1 (Spends.block he hs.2)
  | .branch c yes no, hs => by
    refine andThen (Quiet.editStep.operational.holds he hs.1) fun v => ?_
    simp only [stmtCost]
    split
    · exact (Spends.block he hs.2.1).mono (by omega)
    · exact (Spends.block he hs.2.2).mono (by omega)
  | .doLoop _ _, hs => hs.elim
  | .lambda name _ params body, hs => (Spends.learn hs ⟨name, params, body, true⟩).bind fun _ => pure Flow.normal

/-- **Statements spend what one straight pass through them costs.** -/
theorem Spends.block {ceiling : Nat} {env : Environment Eval} (he : Obeys (Keeps (Quiet made)) (Foreign made) env) :
    ∀ {ss : List Stmt}, Stmt.AllPlain made ss → Spends made ceiling (bodyCost ss) _ (execBlock env ss)
  | [], _ => pure Flow.normal
  | s :: ss, hs => by
    refine mono (n := 1 + (stmtCost s - 1 + bodyCost ss)) (ticked ?_ (Quiet.editStep.operational.pure Flow.halt)) ?_
    · refine (Spends.stmt he hs.1).bind fun flow => ?_
      cases flow with
      | normal => exact Spends.block he hs.2
      | _ => exact (pure _).mono (Nat.zero_le _)
    · have := one_le_stmtCost s
      simp only [bodyCost]
      omega

end

/-! ### Runs -/

namespace Spends

variable {α β : Type} {ceiling cost : Nat}

theorem evalAndThen {x : Eval α} {f : α → Eval β} (hx : Keeps (Quiet made) _ x.run)
    (hf : ∀ a, Spends made ceiling cost _ (f a).run) : Spends made ceiling cost _ (x >>= f).run := by
  show Spends made ceiling cost _ (x.run >>= ExceptT.bindCont f)
  refine andThen hx fun r => ?_
  cases r with
  | ok a => exact hf a
  | error e => exact (pure _).mono (Nat.zero_le cost)

/-- A function without arguments spends what its body costs, whatever can be called in it. -/
theorem invoke (fuel : Nat) {f : Closure} (hf : Stmt.AllPlain made f.body) :
    Spends made ceiling (bodyCost f.body) _ (invoke (fuel + 1) f []).run := by
  refine evalAndThen (Quiet.editStep.operational.evalRead .depth .ok) fun depth => ?_
  split
  · exact (pure _).mono (Nat.zero_le _)
  · refine evalAndThen (Quiet.editStep.operational.bindParams f.params fun _ ha => by cases ha) fun a => ?_
    have hbody : Spends made ceiling (bodyCost f.body) _ (runBody (environment (Procedure.invoke fuel)) f.body a) := by
      refine (inCall a (block (Quiet.environment _) hf)).andQuiet fun flow => ?_
      split <;> exact Quiet.editStep.operational.pure _
    exact hbody.andQuiet fun v => Quiet.editStep.operational.pure (Except.ok v)

theorem defineFunctions : ∀ fs : List FunctionDef, (∀ f ∈ fs, f.Plain made) →
    Spends made ceiling 0 _ (Run.change fun m => defineFunctions m fs)
  | [], _ => pure ()
  | f :: fs, hf => by
    obtain ⟨hfirst, hrest⟩ := List.forall_mem_cons.1 hf
    exact (learn hfirst.name ⟨f.name, f.params, f.body, false⟩).bind fun _ => defineFunctions fs hrest

/-- A run spends what one straight pass through the statements and the entry function costs. -/
theorem program {p : Program} (hp : p.Plain made) : Spends made ceiling p.cost _ (runProgram p) := by
  have hrun : Spends made ceiling (0 + (bodyCost p.body + functionsCost p.functions)) _ (runProgram p) := by
    refine (defineFunctions p.functions hp.functions).bind fun _ => ?_
    refine (block (Quiet.environment _) hp.body).bind fun flow => ?_
    cases flow with
    | normal =>
      simp only
      split
      · rename_i f hf
        have hmem : f ∈ p.functions := by
          unfold Program.entry? at hf
          split at hf
          · exact List.mem_of_find?_eq_some hf
          · cases hf
        have hcall : Spends made ceiling (bodyCost f.body) _
            (attempt (Procedure.invoke (maxCalls + 1) ⟨f.name, f.params, f.body, false⟩ [])) := by
          refine (invoke maxCalls (f := ⟨f.name, f.params, f.body, false⟩) (hp.functions f hmem).body).andQuiet ?_
          intro r
          cases r <;> exact Quiet.editStep.operational.pure _
        exact (hcall.andQuiet fun _ => Quiet.editStep.operational.pure ()).mono (bodyCost_le_functionsCost hmem)
      · exact (pure ()).mono (Nat.zero_le _)
    | _ => exact (pure ()).mono (Nat.zero_le _)
  exact hrun.mono (Nat.le_of_eq (Nat.zero_add p.cost))

end Spends

/-! ### Programs that hit the limit -/

theorem hit_step : Step fun m n => m.limitHit = true → n.limitHit = true where
  refl _ h := h
  trans hmn hno h := hno (hmn h)
  edit m hf h := by
    obtain ⟨channels, calls, root, arrays, generator, failed, -, hm⟩ := hf.spec m
    rw [hm]
    exact h
  sleep {m n} d _ hn h := by
    rw [(sameAccount_capture n.endSleep d none).limitHit]
    exact hn h
  switchAll {m} on _ h := by
    have hc := sameAccount_capture { m with channels := m.channels.fill on } m.baseDelay (some (switchLabel on))
    exact hc.limitHit.trans h
  tick m h := by
    rcases m.tick_cases with ⟨-, e⟩ | ⟨-, -, e⟩ | ⟨-, -, e⟩ <;> rw [e]
    · exact h
    · exact h
  loop {m n} credit l hn h := by
    rw [Machine.popLoop, (sameAccount_modifyCurrent n _).limitHit]
    refine hn ?_
    rw [Machine.pushLoop, (sameAccount_modifyCurrent (m.grant credit) _).limitHit]
    exact h
  call _ hn h := hn h
  learn _ _ _ h := h
  exhaust _ h := h

/-- A loop without statements in it hits the limit if it has more passes than there is work left. -/
theorem limitHit_countedPasses (valueAt : Nat → Int64) : ∀ (left k : Nat) {m : Machine}, m.halted = false →
    m.work ≤ m.limit → m.limit < m.work + left →
    (countedPasses (pure .normal) valueAt left k m).2.limitHit = true
  | 0, _, _, _, hle, hlt => absurd hlt (Nat.not_lt.2 hle)
  | left + 1, k, m, hm, hle, hlt => by
    rw [countedPasses]
    rcases Nat.lt_or_ge m.limit (m.work + 1) with h | h
    · rw [ticked_of_lt hm h]
      rfl
    · rw [ticked_of_le hm h]
      obtain ⟨calls, root, hc⟩ :=
        Machine.setLoopVar_eq { m with work := m.work + 1, answers := true :: m.answers } (valueAt k)
      show (countedPasses (pure .normal) valueAt left (k + 1) (Machine.setLoopVar _ (valueAt k))).2.limitHit = true
      rw [hc]
      exact limitHit_countedPasses valueAt left (k + 1) hm h (by simp only; omega)

/-- An empty counted loop hits the limit if it has more passes than work is left below the ceiling. -/
theorem limitHit_runLoop {env : Environment Eval} {l : LoopHeader} {start bound step : Int64} {m : Machine}
    (hr : loopRange env l m = (some (start, bound, step), m)) (hm : m.halted = false) (hle : m.work ≤ m.limit)
    (hlt : max maxWork m.limit < m.work + l.passes start bound step) :
    (runLoop env l 0 (pure .normal) m).2.limitHit = true := by
  obtain ⟨calls, root, hp⟩ := Machine.modifyCurrent_eq (m.grant (l.passes start bound step * (1 + 0)))
    fun a => { a with loops := ⟨l.var, start⟩ :: a.loops }
  have hpasses : (countedPasses (pure .normal) (l.valueAt start step) (l.passes start bound step) 0
      ((m.grant (l.passes start bound step * (1 + 0))).pushLoop ⟨l.var, start⟩)).2.limitHit = true := by
    rw [Machine.pushLoop, hp]
    refine limitHit_countedPasses _ _ _ hm ?_ ?_
    · simp only [Machine.grant]
      omega
    · simp only [Machine.grant]
      omega
  rw [runLoop, bind_of_eq hr]
  exact (sameAccount_modifyCurrent _ _).limitHit.trans hpasses

/-- So does a program that is nothing else. -/
theorem limitHit_runProgram {l : LoopHeader} {start bound step : Int64}
    (hr : ∀ m, loopRange programEnvironment l m = (some (start, bound, step), m)) {m : Machine}
    (hm : m.halted = false) (hle : m.work + 1 ≤ m.limit)
    (hlt : max maxWork m.limit < m.work + 1 + l.passes start bound step) :
    (runProgram ⟨[.loop l []], []⟩ m).2.limitHit = true := by
  have hloop : (execStmt programEnvironment (.loop l [])
      { m with work := m.work + 1, answers := true :: m.answers }).2.limitHit = true :=
    limitHit_runLoop (hr _) hm hle hlt
  have hblock : (execBlock programEnvironment [.loop l []] m).2.limitHit = true := by
    rw [execBlock, ticked_of_le hm hle]
    refine keeps_bind (Q := fun m => m.limitHit = true) hloop fun flow => ?_
    cases flow <;> exact hit_step.lawful.pure _
  have hdef : (Run.change fun m => defineFunctions m (Program.mk [.loop l []] []).functions) m = ((), m) := rfl
  rw [runProgram, bind_of_eq hdef]
  refine keeps_bind (Q := fun m => m.limitHit = true) hblock fun flow => ?_
  cases flow <;> exact hit_step.lawful.pure _

end RunningLights.Procedure

namespace RunningLights.Simulation

open Procedure

variable {total : Nat} {baseDelay : Duration} {limits : RunLimits}

/-- **The ceiling.**  If the limit ends the run of a plain program that may do one unit of work for every command at
least, then all the work that any program may do has been done: what loops are granted never falls short. -/
theorem executed_of_limitHit {commands : List Command} (hp : Commands.Plain commands) (hf : 1 ≤ limits.workFactor)
    (hl : (ofCommands total baseDelay limits commands).limitHit = true) :
    (ofCommands total baseDelay limits commands).executed = max maxWork (workLimit limits commands.length) := by
  obtain ⟨hplain, hcost⟩ := Program.plain_ofCommands hp
  have hstart : Solvent (fun name => ∃ c ∈ commands, c.makes? = some name)
      (max maxWork (workLimit limits commands.length)) (0 + (Program.ofCommands commands).cost)
      (.start total baseDelay limits.frameCap (workLimit limits commands.length) limits.seed) := by
    refine ⟨fun _ _ hn => (by cases hn), rfl, ?_, fun hh => (by cases hh)⟩
    have hlen : commands.length ≤ limits.workFactor * commands.length := Nat.le_mul_of_pos_left _ hf
    simp only [Machine.start, workLimit, maxWork, Number.wordBound]
    omega
  obtain ⟨-, -, -, hit⟩ := Spends.program hplain 0 _ hstart
  obtain ⟨hlim, hwork⟩ := hit hl
  show min (finalMachine total baseDelay limits commands).work (finalMachine total baseDelay limits commands).limit = _
  change (finalMachine total baseDelay limits commands).limit = _ at hlim
  change _ ≤ (finalMachine total baseDelay limits commands).work at hwork
  rw [hlim]
  exact Nat.min_eq_right hwork

/-- The limit ends the run of an empty loop that has as many passes as any program may do work. -/
theorem limitHit_emptyLoop {l : LoopHeader} {start bound step : Int64}
    (hr : ∀ m, loopRange programEnvironment l m = (some (start, bound, step), m)) (hf : 1 ≤ limits.workFactor)
    (hn : max maxWork (workLimit limits 2) ≤ l.passes start bound step) :
    (ofCommands total baseDelay limits [.loopStart l, .loopEnd]).limitHit = true := by
  have hprog : Program.ofCommands [.loopStart l, .loopEnd] = ⟨[.loop l []], []⟩ := by
    have hclose : (Program.Builder.empty.openBlock (.loop l)).close .loopEnd = ⟨[], [.loop l []], []⟩ :=
      Program.Builder.close_of_ends rfl [] [] []
    simp only [Program.ofCommands, List.foldl_cons, List.foldl_nil, Program.Builder.push, hclose,
      Program.Builder.closeAll_nil]
    rfl
  have hrun : (ofCommands total baseDelay limits [.loopStart l, .loopEnd]).limitHit =
      (runProgram (Program.ofCommands [.loopStart l, .loopEnd])
        (.start total baseDelay limits.frameCap (workLimit limits 2) limits.seed)).2.limitHit := rfl
  rw [hrun, hprog]
  refine limitHit_runProgram hr rfl ?_ ?_
  · simp only [Machine.start, workLimit, Number.wordBound]
    omega
  · simp only [Machine.start]
    omega

/-- A chase that is longer than any program may be. -/
def longChase : LoopHeader := ⟨"i", .ofWord 0, .ofWord 300000, false, .ofWord 1, .forward⟩

theorem executed_longChase : Commands.Plain [.loopStart longChase, .loopEnd] ∧
    (ofCommands 8 (.ofMillis 30) ⟨10, 600, 0⟩ [.loopStart longChase, .loopEnd]).limitHit = true ∧
    (ofCommands 8 (.ofMillis 30) ⟨10, 600, 0⟩ [.loopStart longChase, .loopEnd]).executed =
      max maxWork (workLimit ⟨10, 600, 0⟩ 2) := by
  have hp : Commands.Plain [.loopStart longChase, .loopEnd] := by
    refine ⟨?_, ?_⟩ <;> simp [Command.calls, LoopHeader.calls, longChase, Operand.calls, Operand.ofWord, Expr.calls]
  have hl : (ofCommands 8 (.ofMillis 30) ⟨10, 600, 0⟩ [.loopStart longChase, .loopEnd]).limitHit = true :=
    limitHit_emptyLoop (fun _ => rfl) (by decide) (by decide)
  exact ⟨hp, hl, executed_of_limitHit hp (by decide) hl⟩

end RunningLights.Simulation
