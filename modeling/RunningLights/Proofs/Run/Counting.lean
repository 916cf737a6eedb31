import RunningLights.Proofs.Run.Stack

/-!
# The passes of counted loops

A counted loop computes the number of its passes and the value of each pass by separate formulas, both kept within the
range of words.  A value is never cut off, and as long as the distance between the ends of the loop can be counted no
pass is missing:

* `LoopHeader.term`, `LoopHeader.Admits` — the values that are meant: equal steps from the first one, as far as the
  bound admits them;
* `LoopHeader.toInt_valueAt` — every pass has the value that is meant for it;
* `LoopHeader.intends_values` — the passes have these values, in this order and without a gap;
* `Passes`, `passes_countedPasses` — what a loop does, one pass after another;
* `Simulation.counted_loop` — a loop visits the values that are meant, whatever its body does.
-/

namespace RunningLights

namespace LoopHeader

open Number

variable (h : LoopHeader)

/-! ### The values that are meant -/

/-- The value that is meant for pass `k`. -/
def term (start step : Int) (k : Nat) : Int :=
  match h.direction, h.inclusive with
  | .forward, _ => start + k * step
  | .reverse, true => start - k * step
  | .reverse, false => start - 1 - k * step

def Admits (bound x : Int) : Prop :=
  match h.direction, h.inclusive with
  | .forward, false => x < bound
  | .forward, true => x ≤ bound
  | .reverse, _ => bound ≤ x

/-- The words are the values that are meant, in their order and as far as the bound admits them. -/
def Intends (start bound step : Int) (vs : List Int64) : Prop :=
  ∀ k v, vs[k]? = some v ↔ v.toInt = h.term start step k ∧ h.Admits bound (h.term start step k)

def values (start bound step : Int64) : List Int64 :=
  (List.range (h.passes start bound step)).map (h.valueAt start step)

/-! ### The number of passes -/

/-- The multiples of the step below the span are as many as their quotient, rounded up. -/
theorem lt_roundUp_iff {span step : Int} (hspan : 0 < span) (hstep : 0 < step) (k : Nat) :
    k < (span.tdiv step + if span.tmod step = 0 then 0 else 1).toNat ↔ k * step < span := by
  have hnonneg : 0 ≤ span := Int.le_of_lt hspan
  rw [Int.tdiv_eq_ediv_of_nonneg hnonneg, Int.tmod_eq_emod_of_nonneg hnonneg]
  have hparts : span = span / step * step + span % step := (Int.ediv_mul_add_emod span step).symm
  have hle : (k : Int) ≤ span / step ↔ k * step ≤ span := Int.le_ediv_iff_mul_le hstep
  by_cases hrest : span % step = 0
  · have hlt : k * step < span / step * step ↔ (k : Int) < span / step := Int.mul_lt_mul_right hstep
    rw [if_pos hrest]
    omega
  · have hne : k * step ≠ span := fun h => hrest (h ▸ Int.mul_emod_left (k : Int) step)
    rw [if_neg hrest]
    omega

variable {h} {start bound step : Int64}

/-- A pass is made for every multiple of the step below the span. -/
theorem lt_passes_iff_lt_span (hstep : 0 < step.toInt) (k : Nat) :
    k < h.passes start bound step ↔ k * step.toInt < (h.span start bound).toInt := by
  have hoffset : 0 ≤ (k : Int) * step.toInt := Int.mul_nonneg (Int.natCast_nonneg k) (Int.le_of_lt hstep)
  unfold passes
  dsimp only
  split
  · omega
  · exact lt_roundUp_iff (by omega) hstep k

/-- The distance between the ends of a loop, and one more, can be counted. -/
def Countable (start bound : Int64) : Prop := Fits ((start.toInt - bound.toInt).natAbs + 1)

instance (start bound : Int64) : Decidable (Countable start bound) := inferInstanceAs (Decidable (Fits _))

theorem toInt_span (hc : Countable start bound) :
    (h.span start bound).toInt =
      (match h.direction with
        | .forward => bound.toInt - start.toInt
        | .reverse => start.toInt - bound.toInt) + if h.inclusive then 1 else 0 := by
  simp only [Countable, Fits, minInt, maxInt] at hc
  unfold span
  cases h.direction <;> cases h.inclusive <;>
    simp only [toInt_clamp, minInt, maxInt, if_true, if_false, Bool.false_eq_true] <;> omega

/-- **The number of passes.**  A pass is made exactly when the bound admits the value that is meant for it. -/
theorem lt_passes_iff (hc : Countable start bound) (hstep : 0 < step.toInt) (k : Nat) :
    k < h.passes start bound step ↔ h.Admits bound.toInt (h.term start.toInt step.toInt k) := by
  rw [lt_passes_iff_lt_span hstep, toInt_span hc]
  unfold Admits term
  cases h.direction <;> cases h.inclusive <;> simp only [if_true, if_false, Bool.false_eq_true] <;> omega

/-! ### The values of the passes -/

/-- **The value of a pass.**  Every pass that is made has the value that is meant for it, which the bound admits.
Nothing is cut off, also where the passes cannot all be counted: a span that is cut off is only shorter. -/
theorem toInt_valueAt (hstep : 0 < step.toInt) {k : Nat} (hk : k < h.passes start bound step) :
    (h.valueAt start step k).toInt = h.term start.toInt step.toInt k ∧
      h.Admits bound.toInt (h.term start.toInt step.toInt k) := by
  have hoffset : 0 ≤ (k : Int) * step.toInt := Int.mul_nonneg (Int.natCast_nonneg k) (Int.le_of_lt hstep)
  have hlt := (lt_passes_iff_lt_span hstep k).1 hk
  have hs := fits_toInt start
  have hb := fits_toInt bound
  simp only [Fits, minInt, maxInt] at hs hb
  revert hlt
  unfold span Admits valueAt term
  generalize (k : Int) * step.toInt = offset at hoffset ⊢
  cases h.direction <;> cases h.inclusive <;>
    simp only [toInt_clamp, minInt, maxInt, if_true, if_false, Bool.false_eq_true] <;> omega

theorem getElem?_values {k : Nat} {v : Int64} :
    (h.values start bound step)[k]? = some v ↔ k < h.passes start bound step ∧ h.valueAt start step k = v := by
  simp only [values, List.getElem?_map, Option.map_eq_some_iff, List.getElem?_eq_some_iff, List.length_range,
    List.getElem_range]
  grind

theorem intends_values (hc : Countable start bound) (hstep : 0 < step.toInt) :
    h.Intends start.toInt bound.toInt step.toInt (h.values start bound step) := by
  intro k v
  rw [getElem?_values]
  constructor
  · rintro ⟨hk, rfl⟩
    exact toInt_valueAt hstep hk
  · rintro ⟨hv, hadmits⟩
    have hk : k < h.passes start bound step := (lt_passes_iff hc hstep k).2 hadmits
    exact ⟨hk, Int64.toInt_inj.1 ((toInt_valueAt hstep hk).1.trans hv.symm)⟩

end LoopHeader

namespace Procedure

/-! ### The variable of the innermost loop -/

/-- The innermost loop of the innermost activation has the variable. -/
def OnLoop (name : String) (m : Machine) : Prop := m.current.loops.head?.map LoopVar.name = some name

namespace Machine

variable {m n : Machine}

theorem head?_stack (m : Machine) : m.stack.head? = some m.current.outline := by
  unfold stack current
  cases m.calls <;> rfl

theorem current_modifyCurrent (m : Machine) (g : Activation → Activation) :
    (m.modifyCurrent g).current = g m.current := by
  unfold modifyCurrent current
  cases hcalls : m.calls with
  | nil => simp only
  | cons a rest => rfl

/-- What the innermost activation has a value for is seen first. -/
theorem lookup_of_current {name : String} {v : Value} (h : m.current.get? name = some v) :
    m.lookup name = .ok v := by
  have hvisible : ∃ rest, m.visible = m.current :: rest := by
    unfold visible current visibleCalls
    cases m.calls with
    | nil => exact ⟨_, rfl⟩
    | cons a rest =>
      dsimp only
      split <;> exact ⟨_, rfl⟩
  obtain ⟨rest, hvisible⟩ := hvisible
  rw [lookup, hvisible, List.findSome?_cons, h]

end Machine

variable {name : String} {m n : Machine}

theorem onLoop_iff : OnLoop name m ↔ (m.stack.head?.bind fun o => o.loops.head?) = some name := by
  rw [m.head?_stack, Option.bind_some, OnLoop, Activation.outline, List.head?_map]

theorem OnLoop.of_sameStack (h : OnLoop name m) (hs : SameStack m n) : OnLoop name n := by
  rw [onLoop_iff] at h ⊢
  rwa [show n.stack = m.stack from hs]

theorem onLoop_pushLoop (m : Machine) (l : LoopVar) : OnLoop l.name (m.pushLoop l) := by
  rw [OnLoop, Machine.pushLoop, m.current_modifyCurrent]
  rfl

theorem OnLoop.setLoopVar (h : OnLoop name m) (v : Int64) : OnLoop name (m.setLoopVar v) :=
  h.of_sameStack ((Edit.loopVar v).stack m)

theorem OnLoop.lookup_setLoopVar (h : OnLoop name m) (v : Int64) : (m.setLoopVar v).lookup name = .ok (.int v) := by
  refine Machine.lookup_of_current ?_
  obtain ⟨l, hl, rfl⟩ := Option.map_eq_some_iff.1 h
  obtain ⟨ls, hloops⟩ := List.head?_eq_some_iff.1 hl
  rw [Machine.setLoopVar, m.current_modifyCurrent, hloops]
  simp only [Activation.get?, List.find?_cons, beq_self_eq_true]

/-! ### Passes -/

/-- The passes of a loop over the values, from one state to another.  A pass starts when its unit of work is admitted,
with its value in the variable of the loop; the loop is over after the last value, when work is refused, or when a pass
does not end normally. -/
inductive Passes (name : String) (body : Run Flow) : List Int64 → Machine → Flow → Machine → Prop
  | done (m : Machine) : Passes name body [] m .normal m
  | refused {v : Int64} {vs : List Int64} {m n : Machine} : m.tick = (false, n) → Passes name body (v :: vs) m .halt n
  | ended {v : Int64} {vs : List Int64} {m k n : Machine} {flow : Flow} : m.tick = (true, k) →
      (k.setLoopVar v).lookup name = .ok (.int v) → body (k.setLoopVar v) = (flow, n) → flow ≠ .normal →
      Passes name body (v :: vs) m flow n
  | next {v : Int64} {vs : List Int64} {m k n o : Machine} {flow : Flow} : m.tick = (true, k) →
      (k.setLoopVar v).lookup name = .ok (.int v) → body (k.setLoopVar v) = (.normal, n) →
      Passes name body vs n flow o → Passes name body (v :: vs) m flow o

theorem countedPasses_refused {body : Run Flow} {valueAt : Nat → Int64} {left k : Nat} (h : m.tick = (false, n)) :
    countedPasses body valueAt (left + 1) k m = (.halt, n) := by
  rw [countedPasses, bind_of_eq h]
  rfl

theorem countedPasses_admitted {body : Run Flow} {valueAt : Nat → Int64} {left k : Nat} (h : m.tick = (true, n)) :
    countedPasses body valueAt (left + 1) k m =
      (do match ← body with
          | .normal => countedPasses body valueAt left (k + 1)
          | flow => pure flow : Run Flow) (n.setLoopVar (valueAt k)) := by
  rw [countedPasses, bind_of_eq h]
  rfl

/-- **Passes.**  A body that keeps the stack is run for one value after another, whatever it stores in the variable. -/
theorem passes_countedPasses {body : Run Flow} (hbody : Keeps SameStack Flow body) (valueAt : Nat → Int64) :
    ∀ (left k : Nat) {m : Machine}, OnLoop name m →
      Passes name body ((List.range' k left).map valueAt) m (countedPasses body valueAt left k m).1
        (countedPasses body valueAt left k m).2
  | 0, k, m, _ => .done m
  | left + 1, k, m, hm => by
    rw [List.range'_succ, List.map_cons]
    obtain ⟨admitted, n, hadmitted⟩ : ∃ admitted n, m.tick = (admitted, n) := ⟨_, _, rfl⟩
    have hn : OnLoop name n := by
      have htick := hm.of_sameStack m.stack_tick
      rwa [hadmitted] at htick
    cases admitted with
    | false =>
      rw [countedPasses_refused hadmitted]
      exact .refused hadmitted
    | true =>
      have hseen := hn.lookup_setLoopVar (valueAt k)
      obtain ⟨flow, o, hpass⟩ : ∃ flow o, body (n.setLoopVar (valueAt k)) = (flow, o) := ⟨_, _, rfl⟩
      rw [countedPasses_admitted hadmitted, bind_of_eq hpass]
      cases flow with
      | normal =>
        have ho : OnLoop name o := by
          have hkept := (hn.setLoopVar (valueAt k)).of_sameStack (hbody _)
          rwa [hpass] at hkept
        exact .next hadmitted hseen hpass (passes_countedPasses hbody valueAt left (k + 1) ho)
      | ret v => exact .ended hadmitted hseen hpass Flow.noConfusion
      | halt => exact .ended hadmitted hseen hpass Flow.noConfusion

/-! ### The whole loop -/

/-- The step of a loop: one if it has no value or is not positive. -/
def stepOf (r : Except EvalError Int64) : Int64 :=
  let step := r.toOption.getD 1
  if 0 < step.toInt then step else 1

theorem stepOf_pos (r : Except EvalError Int64) : 0 < (stepOf r).toInt := by
  unfold stepOf
  dsimp only
  split
  · assumption
  · decide

section

variable {env : Environment Eval} {h : LoopHeader} {m m₁ m₂ m₃ : Machine} {start bound : Int64}
  {step : Except EvalError Int64}

theorem loopRange_apply (hstart : (Operand.evalInt env h.start).run m = (.ok start, m₁))
    (hbound : (Operand.evalInt env h.bound).run m₁ = (.ok bound, m₂))
    (hstep : (Operand.evalInt env h.step).run m₂ = (step, m₃)) :
    loopRange env h m = (some (start, bound, stepOf step), m₃) := by
  obtain ⟨v, hv, hint⟩ := run_evalInt_ok hstart
  have hstart' : Operand.valueOrZero env h.start m = (v, m₁) := orElse_apply hv _
  rw [loopRange, bind_of_eq hstart', bind_of_eq (attempt_apply hbound)]
  show (orElse _ _ >>= _) m₂ = _
  rw [bind_of_eq (orElse_apply hstep 1), hint]
  rfl

end

end Procedure

namespace Simulation

open Procedure

/-- **Counted loops.**  A loop whose start, bound and step have been evaluated makes passes in which its variable starts
with the values that are meant, in their order and without a gap, whatever its start, bound and step are.  They are all
that are meant if the distance between start and bound can be counted, unless work is refused or a pass does not end
normally.  Nothing is asked of the body: whatever it stores in the variable of the loop, or in those that the header
reads, the passes to come are the same. -/
theorem counted_loop {h : LoopHeader} {body : List Stmt} {fuel : Nat} {m m₁ m₂ m₃ : Machine} {start bound : Int64}
    {step : Except EvalError Int64}
    (hstart : (Operand.evalInt (environment (invoke fuel)) h.start).run m = (.ok start, m₁))
    (hbound : (Operand.evalInt (environment (invoke fuel)) h.bound).run m₁ = (.ok bound, m₂))
    (hstep : (Operand.evalInt (environment (invoke fuel)) h.step).run m₂ = (step, m₃)) :
    ∃ vs flow n,
      (LoopHeader.Countable start bound → h.Intends start.toInt bound.toInt (stepOf step).toInt vs) ∧
      (∀ k v, vs[k]? = some v → v.toInt = h.term start.toInt (stepOf step).toInt k ∧
        h.Admits bound.toInt (h.term start.toInt (stepOf step).toInt k)) ∧
      Passes h.var (execBlock (environment (invoke fuel)) body) vs
        ((m₃.grant (vs.length * (1 + bodyCost body))).pushLoop ⟨h.var, start⟩) flow n ∧
      execStmt (environment (invoke fuel)) (.loop h body) m = (flow, n.popLoop) := by
  have hs := SameStack.step.lawful
  have hbody : Keeps SameStack Flow (execBlock (environment (invoke fuel)) body) :=
    hs.working.block (hs.environment (hs.invoke fuel)) body
  have hlength : (h.values start bound (stepOf step)).length = h.passes start bound (stepOf step) := by
    simp only [LoopHeader.values, List.length_map, List.length_range]
  have hvalues : h.values start bound (stepOf step) =
      (List.range' 0 (h.passes start bound (stepOf step))).map (h.valueAt start (stepOf step)) := by
    rw [LoopHeader.values, List.range_eq_range']
  let entered := (m₃.grant (h.passes start bound (stepOf step) * (1 + bodyCost body))).pushLoop ⟨h.var, start⟩
  let run := countedPasses (execBlock (environment (invoke fuel)) body) (h.valueAt start (stepOf step))
    (h.passes start bound (stepOf step)) 0 entered
  refine ⟨h.values start bound (stepOf step), run.1, run.2, fun hc => LoopHeader.intends_values hc (stepOf_pos step),
    fun k v hv => ?_, ?_, ?_⟩
  · obtain ⟨hk, rfl⟩ := LoopHeader.getElem?_values.1 hv
    exact LoopHeader.toInt_valueAt (stepOf_pos step) hk
  · rw [hlength, hvalues]
    exact passes_countedPasses hbody _ _ 0 (onLoop_pushLoop _ ⟨h.var, start⟩)
  · rw [execStmt, runLoop, bind_of_eq (loopRange_apply hstart hbound hstep)]
    rfl

def downByTwo : LoopHeader := ⟨"i", .ofWord 6, .ofWord 0, true, .ofWord 2, .reverse⟩

theorem counted_loop_downByTwo :
    ∃ vs flow n, downByTwo.Intends 6 0 2 vs ∧
      Passes "i" (execBlock (environment (invoke 0)) [.act .allOn]) vs
        ((tenUnits.grant (vs.length * 2)).pushLoop ⟨"i", 6⟩) flow n ∧
      execStmt (environment (invoke 0)) (.loop downByTwo [.act .allOn]) tenUnits = (flow, n.popLoop) := by
  obtain ⟨vs, flow, n, hvalues, -, hrest⟩ :=
    @counted_loop downByTwo [.act .allOn] 0 tenUnits tenUnits tenUnits tenUnits 6 0 (.ok 2) rfl rfl rfl
  exact ⟨vs, flow, n, hvalues (by decide), hrest⟩

example : downByTwo.values 6 0 2 = [6, 4, 2, 0] := by decide

end Simulation

end RunningLights
