import Mathlib
import RunningLights.Pattern.Compiled
import RunningLights.Proofs.Expr.Policy

/-!
# What can go wrong on a channel

A pattern that compiles mentions the two names that every channel knows, calls nothing and indexes nothing.  So
nothing can go wrong on a channel but the arithmetic itself:

* `EvalError.IsNumeric` — the errors of the operators;
* `Numeric` — a computation that fails with these errors only;
* `Expr.numeric_eval` — an expression over known names is such a computation;
* `Compiled.fails_numerically` — the channels of a text: those that it can fail on, and those that it lights.
-/

namespace RunningLights

/-- The errors that operators make of values. -/
inductive EvalError.IsNumeric : EvalError → Prop
  | divisionByZero : IsNumeric .divisionByZero
  | overflow : IsNumeric .overflow
  | notFinite (x : Float) : IsNumeric (.notFinite x)

/-- The computation has a value, or one of the errors that operators make. -/
def Numeric {α : Type} (r : Except EvalError α) : Prop := ∀ e, r = .error e → e.IsNumeric

namespace Numeric

variable {α β : Type}

theorem ok (a : α) : Numeric (.ok a : Except EvalError α) := nofun

theorem error {e : EvalError} (h : e.IsNumeric) : Numeric (.error e : Except EvalError α) := by
  rintro _ ⟨⟩
  exact h

theorem bind {x : Except EvalError α} {f : α → Except EvalError β} (hx : Numeric x) (hf : ∀ a, Numeric (f a)) :
    Numeric (x >>= f) := by
  cases x with
  | ok a => exact hf a
  | error e => exact error (hx e rfl)

theorem settle {r : Except EvalError α} (h : Numeric r) : Numeric (settle r : Except EvalError α) := by
  cases r with
  | ok a => exact ok a
  | error e => exact error (h e rfl)

theorem cases {r : Except EvalError α} (h : Numeric r) :
    (∃ a, r = .ok a) ∨ r = .error .divisionByZero ∨ r = .error .overflow ∨ ∃ x, r = .error (.notFinite x) := by
  cases r with
  | ok a => exact .inl ⟨a, rfl⟩
  | error e =>
    cases h e rfl with
    | divisionByZero => exact .inr (.inl rfl)
    | overflow => exact .inr (.inr (.inl rfl))
    | notFinite x => exact .inr (.inr (.inr ⟨x, rfl⟩))

end Numeric

/-! ### Operators -/

theorem numeric_exactly (n : Int) : Numeric (exactly n) := by
  unfold exactly
  split
  · exact .ok _
  · exact .error .overflow

theorem numeric_finitely (x : Float) : Numeric (finitely x) := by
  unfold finitely
  split
  · exact .ok _
  · exact .error (.notFinite x)

theorem UnaryOp.numeric_apply (op : UnaryOp) (v : Value) : Numeric (op.apply v) := by
  cases op with
  | not => exact .ok _
  | neg =>
    simp only [UnaryOp.apply]
    split
    · exact numeric_exactly _
    · exact .ok _

namespace BinaryOp

theorem numeric_quotient (arithmetic : Arithmetic) (a b : Int64) : Numeric (applyInts .div arithmetic a b) := by
  simp only [applyInts]
  split
  · exact .error .divisionByZero
  · split
    · exact numeric_exactly _
    · split
      · split
        · exact .ok _
        · exact numeric_finitely _
      · exact numeric_finitely _

theorem numeric_applyInts (op : BinaryOp) (arithmetic : Arithmetic) (a b : Int64) :
    Numeric (op.applyInts arithmetic a b) := by
  cases op with
  | add => exact numeric_exactly _
  | sub => exact numeric_exactly _
  | mul => exact numeric_exactly _
  | div => exact numeric_quotient arithmetic a b
  | _ =>
    simp only [applyInts]
    split
    · exact .error .divisionByZero
    · split
      · exact numeric_exactly _
      · exact .error .overflow

theorem numeric_applyFloats (op : BinaryOp) (a b : Float) : Numeric (op.applyFloats a b) := by
  cases op with
  | add => exact numeric_finitely _
  | sub => exact numeric_finitely _
  | mul => exact numeric_finitely _
  | _ =>
    simp only [applyFloats]
    split
    · exact .error .divisionByZero
    · exact numeric_finitely _

theorem numeric_applyArithmetic (op : BinaryOp) (arithmetic : Arithmetic) (l r : Value) :
    Numeric (op.applyArithmetic arithmetic l r) := by
  unfold applyArithmetic
  split
  · exact op.numeric_applyInts arithmetic _ _
  · exact op.numeric_applyFloats _ _

theorem numeric_apply (op : BinaryOp) (arithmetic : Arithmetic) (l r : Value) :
    Numeric (op.apply arithmetic l r) := by
  cases op with
  | add | sub | mul | div | rem => exact numeric_applyArithmetic _ arithmetic l r
  | _ => exact .ok _

end BinaryOp

/-! ### Expressions -/

/-- An expression without calls and indices, all of whose names are known, fails for numeric reasons only. -/
theorem Expr.numeric_eval {p : ParsePolicy} {value? : String → Option Value} {arithmetic : Arithmetic}
    (hcalls : p.calls = false) (hindexing : p.indexing = false)
    (hknown : ∀ name, p.admits name → (value? name).isSome) :
    ∀ {e : Expr}, e.conforms p → Numeric (e.eval (Environment.ofNames value?) arithmetic)
  | .literal v, _ => .ok v
  | .ident name, he => by
    obtain ⟨v, hv⟩ := Option.isSome_iff_exists.1 (hknown name he)
    simp only [Expr.eval, Environment.ofNames, hv]
    exact .ok v
  | .unary op e, he => by
    have hv : Numeric (e.eval (Environment.ofNames value?) arithmetic) := numeric_eval hcalls hindexing hknown he
    exact hv.bind fun v => (op.numeric_apply v).settle
  | .binary op l r, he => by
    have hl : Numeric (l.eval (Environment.ofNames value?) arithmetic) :=
      numeric_eval hcalls hindexing hknown (conforms_binary.1 he).1
    have hr : Numeric (r.eval (Environment.ofNames value?) arithmetic) :=
      numeric_eval hcalls hindexing hknown (conforms_binary.1 he).2
    cases op with
    | and =>
      refine hl.bind fun v => ?_
      split
      · exact hr.bind fun w => .ok _
      · exact .ok _
    | or =>
      refine hl.bind fun v => ?_
      split
      · exact .ok _
      · exact hr.bind fun w => .ok _
    | _ => exact hl.bind fun v => hr.bind fun w => (BinaryOp.numeric_apply _ arithmetic v w).settle
  | .index name indices, he => by
    have := (conforms_index.1 he).1
    simp [hindexing] at this
  | .call name args, he => by
    have := (conforms_call.1 he).1
    simp [hcalls] at this

/-! ### Patterns -/

namespace Compiled

abbrev policy : ParsePolicy := .restricted [indexName, totalName]

theorem isSome_names {name : String} (h : policy.admits name) (i total : Nat) : (names i total name).isSome := by
  have hname : name = indexName ∨ name = totalName := by
    simpa [policy, ParsePolicy.admits, ParsePolicy.restricted] using h
  rcases hname with rfl | rfl
  · rfl
  · rfl

theorem conforms_of_compile {text : String} {ps : Parameters} {c : Compiled} (h : compile text ps = .ok c) :
    c.tree.conforms policy := by
  unfold compile at h
  split at h
  · cases h
  · rename_i source _
    split at h
    · cases h
    · rename_i tree htree
      cases h
      have hfilters : Filters (·.conforms policy) (Expr.parse policy source) (Expr.parse .permissive source) :=
        .same_bind fun ts => Expr.ofTokens_filters policy ts
      exact ((hfilters tree).1 htree).2

theorem numeric_evaluateAt {text : String} {ps : Parameters} {c : Compiled} (h : compile text ps = .ok c)
    (i total : Nat) : Numeric (c.evaluateAt i total) := by
  have hknown : ∀ name, policy.admits name → (names i total name).isSome := fun name hname => isSome_names hname i total
  have htree : Numeric (c.tree.eval (Environment.ofNames (names i total)) .real) :=
    Expr.numeric_eval rfl rfl hknown (conforms_of_compile h)
  exact htree.bind fun v => .ok v.truthy

theorem evaluateAt_eq_ok {c : Compiled} {i total : Nat} {on : Bool} :
    c.evaluateAt i total = .ok on ↔
      ∃ v, c.tree.eval (Environment.ofNames (names i total)) .real = .ok v ∧ v.truthy = on := by
  unfold evaluateAt
  rw [Except.bind_eq_ok_iff]
  exact exists_congr fun v => and_congr_right fun _ => ⟨fun h => by cases h; rfl, fun h => by rw [h]; rfl⟩

theorem getElem?_mask {c : Compiled} {total i : Nat} :
    (c.mask total)[i]? = some true ↔ i < total ∧ c.evaluateAt i total = .ok true := by
  unfold mask
  rw [Array.getElem?_ofFn]
  by_cases hi : i < total
  · cases hr : c.evaluateAt i total <;> simp [hi, hr, Except.toOption]
  · simp [hi]

/-- **What a pattern text lights.**  On a channel where a text that compiles has no state, the operators have failed:
there is no other error.  Every text gives each channel a state, and a channel is on exactly if the text compiles and
has a truthy value there. -/
theorem fails_numerically (text : String) (ps : Parameters) (total : Nat) :
    (∀ c, compile text ps = .ok c → ∀ i n,
      (∃ on, c.evaluateAt i n = .ok on) ∨ c.evaluateAt i n = .error .divisionByZero ∨
        c.evaluateAt i n = .error .overflow ∨ ∃ x, c.evaluateAt i n = .error (.notFinite x)) ∧
    (maskOf text total ps).size = total ∧
    ∀ i, (maskOf text total ps)[i]? = some true ↔ i < total ∧ ∃ c v, compile text ps = .ok c ∧
      c.tree.eval (Environment.ofNames (names i total)) .real = .ok v ∧ v.truthy = true := by
  refine ⟨fun c hc i n => (numeric_evaluateAt hc i n).cases, size_maskOf text total ps, fun i => ?_⟩
  unfold maskOf Evaluator.evaluate
  simp only [Evaluator.setParameters, Evaluator.ofTotal]
  cases hc : compile text ps with
  | ok c =>
    rw [getElem?_mask, evaluateAt_eq_ok]
    refine and_congr_right fun _ => ⟨fun ⟨v, hv⟩ => ⟨c, v, rfl, hv⟩, ?_⟩
    rintro ⟨_, v, ⟨⟩, hv⟩
    exact ⟨v, hv⟩
  | error e =>
    have hoff : ¬ (Channels.blank total)[i]? = some true := by
      rw [Channels.blank, Array.getElem?_replicate]
      split <;> simp
    exact ⟨fun h => absurd h hoff, by rintro ⟨_, _, _, ⟨⟩, _⟩⟩

/-- A pattern that the first channel has no value of. -/
def quotient : Compiled :=
  ⟨"totalChannels / i > 1", .binary .gt (.binary .div (.ident totalName) (.ident indexName)) (.literal (.int 1))⟩

theorem fails_numerically_quotient :
    compile "totalChannels / i > 1" .empty = .ok quotient ∧ quotient.evaluateAt 0 4 = .error .divisionByZero ∧
      ((∃ on, quotient.evaluateAt 0 4 = .ok on) ∨ quotient.evaluateAt 0 4 = .error .divisionByZero ∨
        quotient.evaluateAt 0 4 = .error .overflow ∨ ∃ x, quotient.evaluateAt 0 4 = .error (.notFinite x)) := by
  have hc : compile "totalChannels / i > 1" .empty = .ok quotient := by cbv
  exact ⟨hc, rfl, (fails_numerically "totalChannels / i > 1" .empty 4).1 quotient hc 0 4⟩

end Compiled

end RunningLights
