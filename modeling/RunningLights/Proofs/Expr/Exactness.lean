import RunningLights.Procedure.Exec

/-!
# Integers are computed exactly

Expressions of integers and Booleans are compared with the integers of mathematics.  `Expr.trace` evaluates a tree over
unbounded integers, from left to right and with the short circuits of the connectives, and writes down the arithmetic
that it does on the way:

* `Trace` — the operations in the order in which they are done, and the exact value, if no divisor was zero;
* `Operation.DividesByZero`, `Operation.Overflows` — the two ways in which an operation fails: its divisor is zero, or
  its result is outside the 64-bit range;
* `Trace.Yields` — what must come of a trace: its value if none of the operations fails, and the error of the first one
  that fails otherwise;
* `Expr.eval_integral` — evaluating yields what the trace says, whatever the tree.

Every operand of an operation is the value of a 64-bit word as long as none has failed, so that the range matters for
the first failure only; behind it the trace goes on with exact values that no word has.
-/

namespace RunningLights

open Number

/-! ### Exact arithmetic -/

/-- An integer without bounds, or a Boolean. -/
inductive Exact where
  | int (n : Int)
  | bool (b : Bool)
  deriving Repr, DecidableEq

namespace Exact

def toInt : Exact → Int
  | .int n => n
  | .bool b => if b then 1 else 0

def truthy : Exact → Bool
  | .int n => n != 0
  | .bool b => b

end Exact

/-- One piece of arithmetic and the exact operands that it is done on. -/
inductive Operation where
  | neg (a : Int)
  | add (a b : Int)
  | sub (a b : Int)
  | mul (a b : Int)
  | div (a b : Int)
  | rem (a b : Int)
  deriving Repr, DecidableEq

namespace Operation

/-- The exact result; a quotient is cut off at the point.  There is none if the divisor is zero. -/
def result : Operation → Option Int
  | neg a => some (-a)
  | add a b => some (a + b)
  | sub a b => some (a - b)
  | mul a b => some (a * b)
  | div a b => if b = 0 then none else some (a.tdiv b)
  | rem a b => if b = 0 then none else some (a.tmod b)

def DividesByZero : Operation → Prop
  | div _ b | rem _ b => b = 0
  | _ => False

/-- The exact result is outside the range; a remainder overflows where the quotient does. -/
def Overflows : Operation → Prop
  | neg a => ¬ Fits (-a)
  | add a b => ¬ Fits (a + b)
  | sub a b => ¬ Fits (a - b)
  | mul a b => ¬ Fits (a * b)
  | div a b => b ≠ 0 ∧ ¬ Fits (a.tdiv b)
  | rem a b => a = minInt ∧ b = -1

/-- The operation has no result in the range. -/
def Fails (o : Operation) : Prop := o.DividesByZero ∨ o.Overflows

instance : DecidablePred DividesByZero
  | neg _ | add _ _ | sub _ _ | mul _ _ => inferInstanceAs (Decidable False)
  | div _ b | rem _ b => inferInstanceAs (Decidable (b = 0))

instance : DecidablePred Overflows
  | neg a => inferInstanceAs (Decidable (¬ Fits (-a)))
  | add a b => inferInstanceAs (Decidable (¬ Fits (a + b)))
  | sub a b => inferInstanceAs (Decidable (¬ Fits (a - b)))
  | mul a b => inferInstanceAs (Decidable (¬ Fits (a * b)))
  | div a b => inferInstanceAs (Decidable (b ≠ 0 ∧ ¬ Fits (a.tdiv b)))
  | rem a b => inferInstanceAs (Decidable (a = minInt ∧ b = -1))

instance (o : Operation) : Decidable o.Fails := inferInstanceAs (Decidable (_ ∨ _))

theorem DividesByZero.not_overflows {o : Operation} (h : o.DividesByZero) : ¬ o.Overflows := by
  cases o with
  | neg | add | sub | mul => cases h
  | div a b => exact fun ho => ho.1 h
  | rem a b =>
    intro ho
    have hb : b = 0 := h
    have hb' : b = -1 := ho.2
    omega

end Operation

/-- The arithmetic that an evaluation does, and the exact value that it ends with. -/
structure Trace where
  operations : List Operation
  value : Option Exact

namespace Trace

/-- The value is known without arithmetic. -/
def of (x : Exact) : Trace := ⟨[], some x⟩

/-- There is no exact value to go on with. -/
def stuck : Trace := ⟨[], none⟩

def perform (o : Operation) : Trace := ⟨[o], o.result.map .int⟩

def bind (t : Trace) (f : Exact → Trace) : Trace :=
  match t.value with
  | some x => ⟨t.operations ++ (f x).operations, (f x).value⟩
  | none => t

/-- The operation is the first one of the trace that fails. -/
def FirstFailure (t : Trace) (o : Operation) : Prop :=
  ∃ before after, t.operations = before ++ o :: after ∧ (∀ p ∈ before, ¬ p.Fails) ∧ o.Fails

end Trace

/-- The exact value of a value that is no float. -/
def Value.unbounded? : Value → Option Exact
  | .int n => some (.int n.toInt)
  | .bool b => some (.bool b)
  | .float _ => none

/-- The trace of an operator on two exact values.  The connectives do not occur here. -/
def BinaryOp.trace (op : BinaryOp) (x y : Exact) : Trace :=
  match op with
  | .add => .perform (.add x.toInt y.toInt)
  | .sub => .perform (.sub x.toInt y.toInt)
  | .mul => .perform (.mul x.toInt y.toInt)
  | .div => .perform (.div x.toInt y.toInt)
  | .rem => .perform (.rem x.toInt y.toInt)
  | .lt => .of (.bool (x.toInt < y.toInt))
  | .gt => .of (.bool (y.toInt < x.toInt))
  | .le => .of (.bool (x.toInt ≤ y.toInt))
  | .ge => .of (.bool (y.toInt ≤ x.toInt))
  | .eq => .of (.bool (x.toInt = y.toInt))
  | .ne => .of (.bool (x.toInt ≠ y.toInt))
  | .and | .or => .stuck

namespace Expr

/-- The trace of an expression whose names have the exact values: operands from left to right, and the second operand
of a connective only where the first does not decide. -/
def trace (value : String → Exact) : Expr → Trace
  | literal v => match v.unbounded? with
    | some x => .of x
    | none => .stuck
  | ident name => .of (value name)
  | unary .not e => (e.trace value).bind fun x => .of (.bool (!x.truthy))
  | unary .neg e => (e.trace value).bind fun x => .perform (.neg x.toInt)
  | binary .and l r => (l.trace value).bind fun x =>
    if x.truthy then (r.trace value).bind fun y => .of (.bool y.truthy) else .of (.bool false)
  | binary .or l r => (l.trace value).bind fun x =>
    if x.truthy then .of (.bool true) else (r.trace value).bind fun y => .of (.bool y.truthy)
  | binary op l r => (l.trace value).bind fun x => (r.trace value).bind fun y => op.trace x y
  | index _ _ => .stuck
  | call _ _ => .stuck

/-- No floats, calls and indices. -/
def integral : Expr → Bool
  | literal v => v.unbounded?.isSome
  | ident _ => true
  | unary _ e => e.integral
  | binary _ l r => l.integral && r.integral
  | index _ _ => false
  | call _ _ => false

def names : Expr → List String
  | ident name => [name]
  | unary _ e => e.names
  | binary _ l r => l.names ++ r.names
  | literal _ | index _ _ | call _ _ => []

end Expr

/-! ### The range -/

namespace Number

/-- The one quotient of two words that is no word. -/
theorem not_fits_tdiv_iff {a b : Int} (ha : Fits a) (hb : b ≠ 0) : ¬ Fits (a.tdiv b) ↔ a = minInt ∧ b = -1 := by
  constructor
  · intro h
    by_cases hone : b = -1
    · refine ⟨?_, hone⟩
      rw [hone, Int.tdiv_neg, Int.tdiv_one] at h
      simp only [Fits, minInt, maxInt] at ha h ⊢
      omega
    · exfalso
      apply h
      -- The quotient is no longer than the dividend, and half as long if the divisor is no unit.
      have hle := Int.natAbs_tdiv_le_natAbs a b
      by_cases hpos : b = 1
      · rwa [hpos, Int.tdiv_one]
      · have htwo : 2 ≤ b.natAbs := by omega
        have hhalf : (a.tdiv b).natAbs ≤ a.natAbs / 2 := by
          rw [Int.natAbs_tdiv]
          exact Nat.div_le_div_left htwo (by decide)
        simp only [Fits, minInt, maxInt] at ha ⊢
        omega
  · rintro ⟨rfl, rfl⟩
    decide

/-- A remainder is shorter than its divisor. -/
theorem fits_tmod {a b : Int} (hb : Fits b) (hzero : b ≠ 0) : Fits (a.tmod b) := by
  have habs := Int.natAbs_tmod a b
  have hlt : a.natAbs % b.natAbs < b.natAbs := Nat.mod_lt _ (by omega)
  simp only [Fits, minInt, maxInt] at hb ⊢
  omega

end Number

/-! ### What a trace yields -/

/-- What must come of a trace: the word or the Boolean of its value if no operation fails, and otherwise the error of
the first operation that fails. -/
inductive Trace.Yields (t : Trace) : Except EvalError Value → Prop
  | value {v : Value} {x : Exact} (sound : ∀ o ∈ t.operations, ¬ o.Fails) (agrees : v.unbounded? = some x)
      (value : t.value = some x) : t.Yields (.ok v)
  | divisionByZero {o : Operation} (first : t.FirstFailure o) (fails : o.DividesByZero) :
      t.Yields (.error .divisionByZero)
  | overflow {o : Operation} (first : t.FirstFailure o) (fails : o.Overflows) : t.Yields (.error .overflow)

namespace Trace

theorem FirstFailure.unique {t : Trace} {o p : Operation} (ho : t.FirstFailure o) (hp : t.FirstFailure p) : o = p := by
  obtain ⟨before, after, heq, hbefore, hfails⟩ := ho
  obtain ⟨before', after', heq', hbefore', hfails'⟩ := hp
  rw [heq] at heq'
  rcases List.append_eq_append_iff.1 heq' with ⟨between, rfl, hrest⟩ | ⟨between, rfl, hrest⟩
  · cases between with
    | nil => exact (List.cons.inj hrest).1
    | cons q between =>
      obtain ⟨rfl, -⟩ := List.cons.inj hrest
      exact absurd hfails (hbefore' _ (List.mem_append_right _ List.mem_cons_self))
  · cases between with
    | nil => exact (List.cons.inj hrest).1.symm
    | cons q between =>
      obtain ⟨rfl, -⟩ := List.cons.inj hrest
      exact absurd hfails' (hbefore _ (List.mem_append_right _ List.mem_cons_self))

theorem firstFailure_perform {o : Operation} (h : o.Fails) : (perform o).FirstFailure o :=
  ⟨[], [], rfl, fun _ hp => absurd hp List.not_mem_nil, h⟩

theorem FirstFailure.mem {t : Trace} {o : Operation} (h : t.FirstFailure o) : o ∈ t.operations := by
  obtain ⟨before, after, heq, -, -⟩ := h
  rw [heq]
  exact List.mem_append_right _ List.mem_cons_self

theorem FirstFailure.fails {t : Trace} {o : Operation} (h : t.FirstFailure o) : o.Fails := by
  obtain ⟨_, _, _, _, hfails⟩ := h
  exact hfails

/-- The operations of a trace are those of its beginning and, if it has a value, those of what follows. -/
theorem exists_operations_bind (t : Trace) (f : Exact → Trace) :
    ∃ rest, (t.bind f).operations = t.operations ++ rest := by
  unfold bind
  split
  · exact ⟨_, rfl⟩
  · exact ⟨[], (List.append_nil _).symm⟩

theorem FirstFailure.bind {t : Trace} {o : Operation} (h : t.FirstFailure o) (f : Exact → Trace) :
    (t.bind f).FirstFailure o := by
  obtain ⟨before, after, heq, hbefore, hfails⟩ := h
  obtain ⟨rest, hrest⟩ := t.exists_operations_bind f
  refine ⟨before, after ++ rest, ?_, hbefore, hfails⟩
  rw [hrest, heq, List.append_assoc, List.cons_append]

theorem bind_of_value {t : Trace} {x : Exact} (h : t.value = some x) (f : Exact → Trace) :
    t.bind f = ⟨t.operations ++ (f x).operations, (f x).value⟩ := by
  rw [bind, h]

/-- What fails first in the continuation fails first in the whole, if the beginning is sound. -/
theorem FirstFailure.of_bind {t : Trace} {x : Exact} {f : Exact → Trace} {o : Operation}
    (sound : ∀ p ∈ t.operations, ¬ p.Fails) (value : t.value = some x) (h : (f x).FirstFailure o) :
    (t.bind f).FirstFailure o := by
  obtain ⟨before, after, heq, hbefore, hfails⟩ := h
  refine ⟨t.operations ++ before, after, ?_, ?_, hfails⟩
  · rw [bind_of_value value, heq, List.append_assoc]
  · intro p hp
    rcases List.mem_append.1 hp with hp | hp
    · exact sound p hp
    · exact hbefore p hp

namespace Yields

variable {t : Trace}

theorem of {v : Value} {x : Exact} (h : v.unbounded? = some x) : (Trace.of x).Yields (.ok v) :=
  .value (fun _ ho => by cases ho) h rfl

theorem bool (b : Bool) : (Trace.of (.bool b)).Yields (.ok (.bool b)) := of rfl

/-- Behind a beginning without failures comes what the continuation yields. -/
theorem after {x : Exact} {f : Exact → Trace} {r : Except EvalError Value} (sound : ∀ o ∈ t.operations, ¬ o.Fails)
    (value : t.value = some x) (h : (f x).Yields r) : (t.bind f).Yields r := by
  cases h with
  | value sound' agrees value' =>
    refine .value ?_ agrees ?_
    · rw [bind_of_value value]
      intro o ho
      rcases List.mem_append.1 ho with ho | ho
      · exact sound o ho
      · exact sound' o ho
    · rw [bind_of_value value]
      exact value'
  | divisionByZero first fails => exact .divisionByZero (first.of_bind sound value) fails
  | overflow first fails => exact .overflow (first.of_bind sound value) fails

/-! The outcome, read off the trace. -/

theorem outcome {r : Except EvalError Value} (h : t.Yields r) :
    (∃ v x, r = .ok v ∧ v.unbounded? = some x) ∨ r = .error .divisionByZero ∨ r = .error .overflow := by
  cases h with
  | value sound agrees value => exact .inl ⟨_, _, rfl, agrees⟩
  | divisionByZero => exact .inr (.inl rfl)
  | overflow => exact .inr (.inr rfl)

theorem ok_iff {r : Except EvalError Value} (h : t.Yields r) (x : Exact) :
    (∃ v, r = .ok v ∧ v.unbounded? = some x) ↔ (∀ o ∈ t.operations, ¬ o.Fails) ∧ t.value = some x := by
  cases h with
  | @value v y sound agrees value =>
    constructor
    · rintro ⟨_, ⟨⟩, hx⟩
      exact ⟨sound, value.trans (agrees.symm.trans hx)⟩
    · rintro ⟨-, hx⟩
      exact ⟨v, rfl, agrees.trans (value.symm.trans hx)⟩
  | divisionByZero first | overflow first =>
    constructor
    · rintro ⟨_, ⟨⟩, -⟩
    · rintro ⟨sound, -⟩
      exact absurd first.fails (sound _ first.mem)

theorem divisionByZero_iff {r : Except EvalError Value} (h : t.Yields r) :
    r = .error .divisionByZero ↔ ∃ o, t.FirstFailure o ∧ o.DividesByZero := by
  cases h with
  | value sound =>
    constructor
    · rintro ⟨⟩
    · rintro ⟨o, first, -⟩
      exact absurd first.fails (sound _ first.mem)
  | divisionByZero first fails => exact ⟨fun _ => ⟨_, first, fails⟩, fun _ => rfl⟩
  | overflow first fails =>
    constructor
    · rintro ⟨⟩
    · rintro ⟨o, first', fails'⟩
      exact absurd (first.unique first' ▸ fails) fails'.not_overflows

theorem overflow_iff {r : Except EvalError Value} (h : t.Yields r) :
    r = .error .overflow ↔ ∃ o, t.FirstFailure o ∧ o.Overflows := by
  cases h with
  | value sound =>
    constructor
    · rintro ⟨⟩
    · rintro ⟨o, first, -⟩
      exact absurd first.fails (sound _ first.mem)
  | divisionByZero first fails =>
    constructor
    · rintro ⟨⟩
    · rintro ⟨o, first', fails'⟩
      exact absurd fails' (first.unique first' ▸ fails.not_overflows)
  | overflow first fails => exact ⟨fun _ => ⟨_, first, fails⟩, fun _ => rfl⟩

/-! What the operations yield. -/

theorem zero {o : Operation} (h : o.DividesByZero) : (perform o).Yields (.error .divisionByZero) :=
  .divisionByZero (firstFailure_perform (.inl h)) h

/-- A result that is accepted exactly if the operation does not overflow. -/
theorem exactly {o : Operation} {n : Int} (hresult : o.result = some n) (hdivides : ¬ o.DividesByZero)
    (hoverflows : o.Overflows ↔ ¬ Fits n) : (perform o).Yields (exactly n) := by
  unfold RunningLights.exactly
  cases hfit : fit? n with
  | some w =>
    have hw : w.toInt = n := fit?_eq_some_iff.1 hfit
    refine .value (x := .int n) ?_ ?_ ?_
    · intro p hp
      obtain rfl := List.mem_singleton.1 hp
      rintro (h | h)
      · exact hdivides h
      · exact hoverflows.1 h (hw ▸ fits_toInt w)
    · rw [Value.unbounded?, hw]
    · rw [perform, hresult, Option.map_some]
  | none =>
    have ho : o.Overflows := hoverflows.2 (fit?_eq_none_iff.1 hfit)
    exact .overflow (firstFailure_perform (.inr ho)) ho

end Yields

end Trace

/-! ### Operators -/

namespace Value

variable {v w : Value} {x y : Exact}

theorem truthy_of_unbounded (h : v.unbounded? = some x) : v.truthy = x.truthy := by
  cases v with
  | int n =>
    cases h
    show (n != 0) = (n.toInt != 0)
    rw [Bool.eq_iff_iff, bne_iff_ne, bne_iff_ne, ne_eq, ne_eq, ← Int64.toInt_inj, Int64.toInt_zero]
  | bool b => cases h; rfl
  | float => cases h

/-- A value with an exact one is an integer word, Booleans included. -/
theorem integral_of_unbounded (h : v.unbounded? = some x) : ∃ n, v.integral? = some n ∧ n.toInt = x.toInt := by
  cases v with
  | int n => cases h; exact ⟨n, rfl, rfl⟩
  | bool b => cases h; cases b <;> exact ⟨_, rfl, rfl⟩
  | float => cases h

end Value

section Operators

variable {v w : Value} {x y : Exact}

theorem UnaryOp.yields_neg (h : v.unbounded? = some x) :
    (Trace.perform (.neg x.toInt)).Yields (UnaryOp.neg.apply v) := by
  obtain ⟨n, hn, hx⟩ := Value.integral_of_unbounded h
  rw [UnaryOp.apply, hn, ← hx]
  exact .exactly rfl not_false .rfl

/-- The arithmetic operators on two words. -/
theorem BinaryOp.yields_applyInts {op : BinaryOp} (hop : op = .add ∨ op = .sub ∨ op = .mul ∨ op = .div ∨ op = .rem)
    {a b : Int64} (hx : a.toInt = x.toInt) (hy : b.toInt = y.toInt) :
    (op.trace x y).Yields (op.applyInts .integer a b) := by
  rcases hop with rfl | rfl | rfl | rfl | rfl
  all_goals rw [BinaryOp.trace, ← hx, ← hy]
  · exact .exactly rfl not_false .rfl
  · exact .exactly rfl not_false .rfl
  · exact .exactly rfl not_false .rfl
  · rw [applyInts]
    by_cases hb : b.toInt = 0
    · rw [if_pos hb]
      exact .zero hb
    · rw [if_neg hb]
      exact .exactly (if_neg hb) hb ⟨And.right, fun h => ⟨hb, h⟩⟩
  · rw [applyInts.eq_def]
    dsimp only
    by_cases hb : b.toInt = 0
    · rw [if_pos hb]
      exact .zero hb
    · rw [if_neg hb]
      have hfits := not_fits_tdiv_iff (fits_toInt a) hb
      cases hquotient : fit? (a.toInt.tdiv b.toInt) with
      | some q =>
        -- The quotient is a word, so that it is not the one remainder that overflows.
        refine .exactly (if_neg hb) hb ⟨fun ho => ?_, fun h => absurd (fits_tmod (fits_toInt b) hb) h⟩
        have hq : Fits (a.toInt.tdiv b.toInt) := fit?_eq_some_iff.1 hquotient ▸ fits_toInt q
        exact absurd hq (hfits.2 ho)
      | none =>
        have ho := hfits.1 (fit?_eq_none_iff.1 hquotient)
        exact .overflow (Trace.firstFailure_perform (.inr ho)) ho

/-- Comparisons of words are those of their exact values. -/
theorem BinaryOp.compares_of_unbounded (op : BinaryOp) (hv : v.unbounded? = some x) (hw : w.unbounded? = some y) :
    op.compares v w = op.comparesInts x.toInt y.toInt := by
  obtain ⟨a, ha, hx⟩ := Value.integral_of_unbounded hv
  obtain ⟨b, hb, hy⟩ := Value.integral_of_unbounded hw
  rw [BinaryOp.compares, ha, hb, ← hx, ← hy]

theorem BinaryOp.yields_apply {op : BinaryOp} (hand : op ≠ .and) (hor : op ≠ .or) (hv : v.unbounded? = some x)
    (hw : w.unbounded? = some y) : (op.trace x y).Yields (op.apply .integer v w) := by
  obtain ⟨a, ha, hx⟩ := Value.integral_of_unbounded hv
  obtain ⟨b, hb, hy⟩ := Value.integral_of_unbounded hw
  have harithmetic : op.applyArithmetic .integer v w = op.applyInts .integer a b := by
    rw [applyArithmetic, ha, hb]
  have hcompares := op.compares_of_unbounded hv hw
  cases op with
  | and => exact absurd rfl hand
  | or => exact absurd rfl hor
  | add | sub | mul | div | rem =>
    rw [apply, harithmetic]
    exact yields_applyInts (by decide) hx hy
  | lt | gt | le | ge | eq =>
    rw [apply, hcompares]
    exact .of rfl
  | ne =>
    rw [apply, hcompares]
    refine .of (congrArg (fun b => some (Exact.bool b)) ?_)
    rw [comparesInts, Bool.eq_iff_iff, bne_iff_ne, decide_eq_true_iff]

end Operators

/-! ### Expressions -/

/-- At a state, the computation leaves the state as it is and gives what the trace yields. -/
def Answers {σ : Type} (x : ExceptT EvalError (StateM σ) Value) (s : σ) (t : Trace) : Prop :=
  ∃ r, x.run s = (r, s) ∧ t.Yields r

namespace Answers

variable {σ : Type} {s : σ} {t : Trace} {x : ExceptT EvalError (StateM σ) Value}

theorem settle {r : Except EvalError Value} (h : t.Yields r) :
    Answers (settle r : ExceptT EvalError (StateM σ) Value) s t := by
  cases r with
  | ok v => exact ⟨_, rfl, h⟩
  | error e => exact ⟨_, rfl, h⟩

theorem pure {v : Value} (h : t.Yields (.ok v)) : Answers (pure v) s t := ⟨_, rfl, h⟩

theorem bind_of_run {α β : Type} {x : StateM σ α} {f : α → StateM σ β} {a : α} (h : x s = (a, s)) :
    (x >>= f) s = f a s := by
  show f (x s).1 (x s).2 = _
  rw [h]

theorem bind {f : Exact → Trace} {g : Value → ExceptT EvalError (StateM σ) Value} (h : Answers x s t)
    (hfg : ∀ v y, v.unbounded? = some y → Answers (g v) s (f y)) : Answers (x >>= g) s (t.bind f) := by
  obtain ⟨r, hr, hyields⟩ := h
  cases hyields with
  | value sound agrees value =>
    obtain ⟨r', hr', hyields'⟩ := hfg _ _ agrees
    refine ⟨r', ?_, hyields'.after sound value⟩
    rw [ExceptT.run_bind, bind_of_run hr]
    exact hr'
  | divisionByZero first fails =>
    refine ⟨.error .divisionByZero, ?_, .divisionByZero (first.bind f) fails⟩
    rw [ExceptT.run_bind, bind_of_run hr]
    rfl
  | overflow first fails =>
    refine ⟨.error .overflow, ?_, .overflow (first.bind f) fails⟩
    rw [ExceptT.run_bind, bind_of_run hr]
    rfl

end Answers

namespace Expr

variable {σ : Type} {env : Environment (ExceptT EvalError (StateM σ))} {s : σ} {value : String → Exact}

theorem answers_binary {op : BinaryOp} {l r : Expr} (hand : op ≠ .and) (hor : op ≠ .or)
    (hl : Answers (l.eval env .integer) s (l.trace value)) (hr : Answers (r.eval env .integer) s (r.trace value)) :
    Answers ((binary op l r).eval env .integer) s ((binary op l r).trace value) := by
  rw [eval, trace]
  · refine hl.bind fun v x hv => hr.bind fun w y hw => ?_
    exact .settle (BinaryOp.yields_apply hand hor hv hw)
  all_goals assumption

theorem answers_trace (e : Expr) (hintegral : e.integral)
    (hnames : ∀ name ∈ e.names, ∃ v, (env.lookup name).run s = (.ok v, s) ∧ v.unbounded? = some (value name)) :
    Answers (e.eval env .integer) s (e.trace value) := by
  match e with
  | literal v =>
    obtain ⟨x, hx⟩ := Option.isSome_iff_exists.1 hintegral
    rw [eval, trace, hx]
    exact .pure (.of hx)
  | ident name =>
    obtain ⟨v, hrun, hv⟩ := hnames name List.mem_cons_self
    rw [eval, trace]
    exact ⟨_, hrun, .of hv⟩
  | unary op e =>
    have he := answers_trace e hintegral hnames
    cases op with
    | not =>
      rw [eval, trace]
      refine he.bind fun v x hv => .settle ?_
      rw [UnaryOp.apply, Value.truthy_of_unbounded hv]
      exact .bool _
    | neg =>
      rw [eval, trace]
      exact he.bind fun v x hv => .settle (UnaryOp.yields_neg hv)
  | binary op l r =>
    obtain ⟨hl, hr⟩ := (Bool.and_eq_true _ _).mp hintegral
    have hleft := answers_trace l hl fun name h => hnames name (List.mem_append_left _ h)
    have hright := answers_trace r hr fun name h => hnames name (List.mem_append_right _ h)
    by_cases hand : op = .and
    · subst hand
      rw [eval, trace]
      refine hleft.bind fun v x hv => ?_
      rw [Value.truthy_of_unbounded hv]
      by_cases hx : x.truthy
      · rw [if_pos hx, if_pos hx]
        refine hright.bind fun w y hw => ?_
        rw [Value.truthy_of_unbounded hw]
        exact .pure (.bool _)
      · rw [if_neg hx, if_neg hx]
        exact .pure (.bool _)
    by_cases hor : op = .or
    · subst hor
      rw [eval, trace]
      refine hleft.bind fun v x hv => ?_
      rw [Value.truthy_of_unbounded hv]
      by_cases hx : x.truthy
      · rw [if_pos hx, if_pos hx]
        exact .pure (.bool _)
      · rw [if_neg hx, if_neg hx]
        refine hright.bind fun w y hw => ?_
        rw [Value.truthy_of_unbounded hw]
        exact .pure (.bool _)
    exact answers_binary hand hor hleft hright
  | index name es => cases hintegral
  | call name es => cases hintegral

/-- **Integers are computed exactly.**  Where all names stand for integers and Booleans, an expression without floats,
calls and indices is evaluated without a change of the state, and the result is an integer, a Boolean, or one of two
errors.  It is the exact value if none of the operations of the trace fails; it is the error of a division by zero
exactly if the first operation that fails has a zero divisor, and the error of an overflow exactly if the first one that
fails has no result in the range. -/
theorem eval_integral {σ : Type} (env : Environment (ExceptT EvalError (StateM σ))) (s : σ) (value : String → Exact)
    (e : Expr) (hintegral : e.integral)
    (hnames : ∀ name ∈ e.names, ∃ v, (env.lookup name).run s = (.ok v, s) ∧ v.unbounded? = some (value name)) :
    ∃ r, (e.eval env .integer).run s = (r, s) ∧
      ((∃ v x, r = .ok v ∧ v.unbounded? = some x) ∨ r = .error .divisionByZero ∨ r = .error .overflow) ∧
      (∀ x, (∃ v, r = .ok v ∧ v.unbounded? = some x) ↔
        (∀ o ∈ (e.trace value).operations, ¬ o.Fails) ∧ (e.trace value).value = some x) ∧
      (r = .error .divisionByZero ↔ ∃ o, (e.trace value).FirstFailure o ∧ o.DividesByZero) ∧
      (r = .error .overflow ↔ ∃ o, (e.trace value).FirstFailure o ∧ o.Overflows) := by
  obtain ⟨r, hrun, hyields⟩ := answers_trace e hintegral hnames
  exact ⟨r, hrun, hyields.outcome, hyields.ok_iff, hyields.divisionByZero_iff, hyields.overflow_iff⟩

open Procedure in
/-- In a run, with the least integer as `least` and true as `flag`: the divisor of `1 / 0` is never looked at, and the
remainder by minus one overflows. -/
theorem eval_integral_least :
    let start : Machine := .start 2 (.ofMillis 30) 10 600 0
    let m := (start.declare "least" .integer false (.int (Int64.ofInt minInt))).declare "flag" .boolean false (.bool true)
    let e := binary .and (binary .or (ident "flag") (binary .div (literal (.int 1)) (literal (.int 0))))
      (binary .rem (ident "least") (unary .neg (ident "flag")))
    let value : String → Exact := fun name => if name = "flag" then .bool true else .int minInt
    e.integral ∧
      (∀ name ∈ e.names, ∃ v, (programEnvironment.lookup name).run m = (.ok v, m) ∧ v.unbounded? = some (value name)) ∧
      (e.eval programEnvironment .integer).run m = (.error .overflow, m) := by
  intro start m e value
  have hflag : ∃ v, (programEnvironment.lookup "flag").run m = (.ok v, m) ∧ v.unbounded? = some (value "flag") :=
    ⟨.bool true, rfl, rfl⟩
  have hleast : ∃ v, (programEnvironment.lookup "least").run m = (.ok v, m) ∧ v.unbounded? = some (value "least") :=
    ⟨.int (Int64.ofInt minInt), rfl, by decide⟩
  have hnames : ∀ name ∈ e.names,
      ∃ v, (programEnvironment.lookup name).run m = (.ok v, m) ∧ v.unbounded? = some (value name) := by
    simp only [e, names, List.nil_append, List.append_nil, List.cons_append, List.forall_mem_cons]
    exact ⟨hflag, hleast, hflag, nofun⟩
  refine ⟨rfl, hnames, ?_⟩
  obtain ⟨r, hrun, -, -, -, hoverflow⟩ := eval_integral programEnvironment m value e rfl hnames
  have hfirst : (e.trace value).FirstFailure (.rem minInt (-1)) :=
    ⟨[.neg 1], [], by decide, by decide, by decide⟩
  rw [hrun, hoverflow.2 ⟨_, hfirst, by decide⟩]

end Expr

end RunningLights
