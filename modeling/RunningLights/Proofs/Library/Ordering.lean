import RunningLights.Procedure.Calls
import RunningLights.Proofs.Number.Nearest
import RunningLights.Proofs.Run.Relation
import Mathlib

/-!
# How the library orders integers

The operators compare integers exactly, but `min`, `max` and `constrain` compare the floats that are closest to them.
Integers of more than 53 bits may have the same float, and which of them is less the library cannot tell:

* `Alike` — two integers have the same float, which makes them equal up to 53 bits and never further apart than 1024;
* `floatOf_le_iff_alike`, `floatOf_lt_iff_alike` — apart from these the floats are in the order of the integers;
* `HasValue` — the value of an expression that leaves the state as it is, and the rules for calls and comparisons;
* `order_of_integers` — the library functions are exact unless the integers they compare are alike;
* `constrain_out_of_range` — an integer that is left outside of its range.
-/

namespace RunningLights.Procedure

open Number

/-! ### Integers with the same float -/

/-- The float closest to both integers is the same. -/
def Alike (a b : Int64) : Prop := nearest a.toInt = nearest b.toInt

instance (a b : Int64) : Decidable (Alike a b) := inferInstanceAs (Decidable (_ = _))

theorem Alike.symm {a b : Int64} (h : Alike a b) : Alike b a := Eq.symm h

theorem Alike.between {a b c : Int64} (h : Alike a c) (hab : a ≤ b) (hbc : b ≤ c) : Alike a b := by
  rw [Int64.le_iff_toInt_le] at hab hbc
  have hlow := nearest_mono hab
  have hhigh := nearest_mono hbc
  unfold Alike at *
  omega

theorem floatOf_le_iff_alike (a b : Int64) : floatOf a ≤ floatOf b ↔ a ≤ b ∨ Alike a b := by
  rw [floatOf_le_iff, Int64.le_iff_toInt_le]
  constructor
  · intro h
    by_cases hle : a.toInt ≤ b.toInt
    · exact .inl hle
    · have := nearest_mono (le_of_not_ge hle)
      exact .inr (le_antisymm h this)
  · rintro (h | h)
    · exact nearest_mono h
    · exact h.le

theorem floatOf_lt_iff_alike (a b : Int64) : floatOf a < floatOf b ↔ a < b ∧ ¬ Alike a b := by
  rw [floatOf_lt_iff, Int64.lt_iff_toInt_lt]
  constructor
  · intro h
    refine ⟨?_, fun halike => h.ne halike⟩
    by_contra hle
    have := nearest_mono (le_of_not_gt hle)
    omega
  · rintro ⟨h, halike⟩
    exact lt_of_le_of_ne (nearest_mono h.le) halike

/-- An integer of at most 53 bits has a float of its own. -/
theorem Alike.eq_of_lt {a b : Int64} (h : Alike a b) (ha : a.toInt.natAbs < 2 ^ 53) : a = b := by
  have hnearest : nearest a.toInt = nearest b.toInt := h
  rw [nearest_of_lt ha] at hnearest
  by_cases hb : b.toInt.natAbs < 2 ^ 53
  · rw [nearest_of_lt hb] at hnearest
    exact Int64.toInt_inj.1 hnearest
  · have hpower : nearest (2 ^ 53) = 2 ^ 53 := by decide
    have hpower' : nearest (-2 ^ 53) = -2 ^ 53 := by decide
    by_cases hsign : 0 ≤ b.toInt
    · have := nearest_mono (by omega : (2 : ℤ) ^ 53 ≤ b.toInt)
      omega
    · have := nearest_mono (by omega : b.toInt ≤ -2 ^ 53)
      omega

theorem nearest_toInt_close (a : Int64) : 2 * |a.toInt - nearest a.toInt| ≤ 1024 := by
  have hlow := a.le_toInt
  have hhigh := a.toInt_lt
  by_cases hleast : a.toInt = -2 ^ 63
  · rw [hleast]
    decide
  · exact nearest_close (k := 10) (by omega)

theorem Alike.close {a b : Int64} (h : Alike a b) : |a.toInt - b.toInt| ≤ 1024 := by
  have ha := nearest_toInt_close a
  have hb := nearest_toInt_close b
  have hnearest : nearest a.toInt = nearest b.toInt := h
  rw [← hnearest] at hb
  rw [abs_eq_max_neg] at *
  omega

/-! ### Values of expressions -/

/-- The value of an expression in the state `m`, which it leaves as it is. -/
def HasValue (env : Environment Eval) (arithmetic : Arithmetic) (m : Machine) (e : Expr) (v : Value) : Prop :=
  (e.eval env arithmetic).run m = (.ok v, m)

section

variable {invoke : Closure → List Arg → Eval Value} {arithmetic : Arithmetic} {m : Machine}

theorem HasValue.literal (v : Value) : HasValue (environment invoke) arithmetic m (.literal v) v := by
  rw [HasValue, Expr.eval]
  rfl

theorem HasValue.values {es : List Expr} {vs : List Value}
    (h : List.Forall₂ (HasValue (environment invoke) arithmetic m) es vs) :
    (Eval.values (Expr.arguments (environment invoke) arithmetic es)).run m = (.ok vs, m) := by
  induction h with
  | nil => rfl
  | cons hv _ ih =>
    rw [Expr.arguments, Eval.values, run_bind_ok hv, run_bind_ok ih]
    rfl

theorem HasValue.call {b : Builtin} (hb : b = .min ∨ b = .max ∨ b = .constrain) {es : List Expr} {vs : List Value}
    (h : List.Forall₂ (HasValue (environment invoke) arithmetic m) es vs) {v : Value} (hv : applyBuiltin b vs = .ok v) :
    HasValue (environment invoke) arithmetic m (.call b.name es) v := by
  have hcall : (environment invoke).call b.name (Expr.arguments (environment invoke) arithmetic es) =
      (Eval.values (Expr.arguments (environment invoke) arithmetic es) >>= fun vs => settle (applyBuiltin b vs)) := by
    rcases hb with rfl | rfl | rfl <;> rfl
  rw [HasValue, Expr.eval, hcall, run_bind_ok (HasValue.values h), hv]
  rfl

variable {l r : Expr}

/-- An operator is applied to the values of both sides, unless the left one may decide. -/
theorem HasValue.binary {op : BinaryOp} (hop : op ≠ .and ∧ op ≠ .or) {v w result : Value}
    (hl : HasValue (environment invoke) arithmetic m l v) (hr : HasValue (environment invoke) arithmetic m r w)
    (hresult : op.apply arithmetic v w = .ok result) :
    HasValue (environment invoke) arithmetic m (.binary op l r) result := by
  rw [HasValue, Expr.eval.eq_6 _ _ op l r hop.1 hop.2, run_bind_ok hl, run_bind_ok hr, hresult]
  rfl

theorem HasValue.and {p q : Bool} (hl : HasValue (environment invoke) arithmetic m l (.bool p))
    (hr : HasValue (environment invoke) arithmetic m r (.bool q)) :
    HasValue (environment invoke) arithmetic m (.binary .and l r) (.bool (p && q)) := by
  simp only [HasValue, Expr.eval]
  rw [run_bind_ok hl]
  cases p
  · rfl
  · rw [Value.truthy, if_pos rfl, run_bind_ok hr]
    rfl

end

/-! ### The library functions on integers -/

/-- What `constrain` makes of `v`. -/
def limited (v low high : Int64) : Int64 :=
  if v < low ∧ ¬ Alike v low then low else if high < v ∧ ¬ Alike high v then high else v

section

variable (a b v low high : Int64)

theorem applyBuiltin_min :
    applyBuiltin .min [.int a, .int b] = .ok (.int (if a ≤ b ∨ Alike a b then a else b)) := by
  simp only [applyBuiltin, extreme, if_true, Value.toFloat, floatOf_le_iff_alike]
  split <;> rfl

theorem applyBuiltin_max :
    applyBuiltin .max [.int a, .int b] = .ok (.int (if b ≤ a ∨ Alike b a then a else b)) := by
  simp only [applyBuiltin, extreme, if_neg (by decide : Builtin.max ≠ .min), Value.toFloat, floatOf_le_iff_alike]
  split <;> rfl

theorem applyBuiltin_constrain :
    applyBuiltin .constrain [.int v, .int low, .int high] = .ok (.int (limited v low high)) := by
  simp only [applyBuiltin, Library.constrain, Value.toFloat, floatOf_lt_iff_alike, limited]
  split
  · rfl
  · split <;> rfl

end

section

variable {a b v low high n : Int64}

/-- What `min` gives is the first of two that are alike, and the lesser of others. -/
theorem least_of_alike (hn : n = if a ≤ b ∨ Alike a b then a else b) :
    (if Alike a b then n = a else n.toInt = min a.toInt b.toInt) ∧ ((n ≤ a ∧ n ≤ b) ↔ a ≤ b ∨ ¬ Alike a b) := by
  simp only [Int64.le_iff_toInt_le] at *
  by_cases halike : Alike a b
  · rw [if_pos (.inr halike)] at hn
    simp [hn, halike]
  · by_cases hle : a.toInt ≤ b.toInt
    · rw [if_pos (.inl hle)] at hn
      simp [hn, halike, hle]
    · rw [if_neg (by simp [hle, halike])] at hn
      simp only [hn, halike, if_false, not_false_eq_true, or_true, iff_true]
      omega

/-- What `max` gives is the first of two that are alike, and the greater of others. -/
theorem greatest_of_alike (hn : n = if b ≤ a ∨ Alike b a then a else b) :
    (if Alike a b then n = a else n.toInt = max a.toInt b.toInt) ∧ ((a ≤ n ∧ b ≤ n) ↔ b ≤ a ∨ ¬ Alike a b) := by
  have hcomm : Alike b a ↔ Alike a b := ⟨Alike.symm, Alike.symm⟩
  simp only [Int64.le_iff_toInt_le, hcomm] at *
  by_cases halike : Alike a b
  · rw [if_pos (.inr halike)] at hn
    simp [hn, halike]
  · by_cases hle : b.toInt ≤ a.toInt
    · rw [if_pos (.inl hle)] at hn
      simp [hn, halike, hle]
    · rw [if_neg (by simp [hle, halike])] at hn
      simp only [hn, halike, if_false, not_false_eq_true, or_true, iff_true]
      omega

/-- The integer of the range from `low` to `high` that is closest to `v`. -/
structure Closest (v low high n : Int64) : Prop where
  low_le : low ≤ n
  le_high : n ≤ high
  closest : ∀ k, low ≤ k → k ≤ high → |v.toInt - n.toInt| ≤ |v.toInt - k.toInt|

/-- An integer that is like an end of the range stays where it is. -/
theorem limited_of_ends (hrange : low ≤ high) (hends : Alike v low ∨ Alike v high) : limited v low high = v := by
  have hbelow : ¬ (v < low ∧ ¬ Alike v low) := by
    rintro ⟨hlt, hlow⟩
    have hhigh : Alike v high := hends.resolve_left hlow
    exact hlow (hhigh.between (Int64.le_of_lt hlt) hrange)
  have habove : ¬ (high < v ∧ ¬ Alike high v) := by
    rintro ⟨hlt, hhigh⟩
    have hlow : Alike low v := (hends.resolve_right fun h => hhigh h.symm).symm
    have hmiddle : Alike low high := hlow.between hrange (Int64.le_of_lt hlt)
    exact hhigh (hmiddle.symm.trans hlow)
  rw [limited, if_neg hbelow, if_neg habove]

theorem closest_limited (hrange : low ≤ high) (hlow : ¬ Alike v low) (hhigh : ¬ Alike v high) :
    Closest v low high (limited v low high) := by
  have hhigh' : ¬ Alike high v := fun h => hhigh h.symm
  simp only [limited, hlow, hhigh', not_false_eq_true, and_true]
  split
  · rename_i hbelow
    refine ⟨Int64.le_refl low, hrange, ?_⟩
    intro k hk _
    rw [Int64.lt_iff_toInt_lt] at hbelow
    rw [Int64.le_iff_toInt_le] at hk
    rw [abs_eq_max_neg, abs_eq_max_neg]
    omega
  · rename_i hbelow
    split
    · rename_i habove
      refine ⟨hrange, Int64.le_refl high, ?_⟩
      intro k _ hk
      rw [Int64.lt_iff_toInt_lt] at habove
      rw [Int64.le_iff_toInt_le] at hk
      rw [abs_eq_max_neg, abs_eq_max_neg]
      omega
    · rename_i habove
      refine ⟨Int64.not_lt.1 hbelow, Int64.not_lt.1 habove, ?_⟩
      intro k _ _
      rw [Int.sub_self, abs_zero]
      exact abs_nonneg _

/-- What `constrain` gives is in the range exactly if the integer was, or if it is like neither end. -/
theorem limited_of_alike (hrange : low ≤ high) :
    (if Alike v low ∨ Alike v high then limited v low high = v else Closest v low high (limited v low high)) ∧
      ((low ≤ limited v low high ∧ limited v low high ≤ high) ↔
        (low ≤ v ∧ v ≤ high) ∨ (¬ Alike v low ∧ ¬ Alike v high)) := by
  by_cases hends : Alike v low ∨ Alike v high
  · rw [if_pos hends, limited_of_ends hrange hends]
    tauto
  · obtain ⟨hlow, hhigh⟩ := not_or.1 hends
    have hclosest := closest_limited hrange hlow hhigh
    rw [if_neg hends]
    exact ⟨hclosest, fun _ => .inr ⟨hlow, hhigh⟩, fun _ => ⟨hclosest.low_le, hclosest.le_high⟩⟩

end

/-- **The order of integers.**  Let expressions have integers as values.  Of two integers that have the same float `min`
and `max` give the first; of others they give the lesser and the greater one.  An integer that has the same float as an
end of the range `constrain` leaves where it is; any other it moves to the closest integer of the range.  That the
results are in order, as the operators see it, is true exactly if the integers compared are in order already or have
different floats.  Different integers with the same float have more than 53 bits and are at most 1024 apart. -/
theorem order_of_integers {invoke : Closure → List Arg → Eval Value} {arithmetic : Arithmetic} {m : Machine}
    {first second moved bottom top : Expr} {a b v low high : Int64}
    (hfirst : HasValue (environment invoke) arithmetic m first (.int a))
    (hsecond : HasValue (environment invoke) arithmetic m second (.int b))
    (hmoved : HasValue (environment invoke) arithmetic m moved (.int v))
    (hbottom : HasValue (environment invoke) arithmetic m bottom (.int low))
    (htop : HasValue (environment invoke) arithmetic m top (.int high)) (hrange : low ≤ high) :
    let has := HasValue (environment invoke) arithmetic m
    let least := Expr.call Builtin.min.name [first, second]
    let greatest := Expr.call Builtin.max.name [first, second]
    let confined := Expr.call Builtin.constrain.name [moved, bottom, top]
    (∃ n, has least (.int n) ∧ if Alike a b then n = a else n.toInt = min a.toInt b.toInt) ∧
    (∃ n, has greatest (.int n) ∧ if Alike a b then n = a else n.toInt = max a.toInt b.toInt) ∧
    (∃ n, has confined (.int n) ∧ if Alike v low ∨ Alike v high then n = v else Closest v low high n) ∧
    has (.binary .and (.binary .le least first) (.binary .le least second)) (.bool (decide (a ≤ b ∨ ¬ Alike a b))) ∧
    has (.binary .and (.binary .ge greatest first) (.binary .ge greatest second))
      (.bool (decide (b ≤ a ∨ ¬ Alike a b))) ∧
    has (.binary .and (.binary .le bottom confined) (.binary .le confined top))
      (.bool (decide ((low ≤ v ∧ v ≤ high) ∨ (¬ Alike v low ∧ ¬ Alike v high)))) ∧
    ∀ x y, Alike x y → x ≠ y → 2 ^ 53 ≤ x.toInt.natAbs ∧ |x.toInt - y.toInt| ≤ 1024 := by
  intro has least greatest confined
  obtain ⟨hleast, hleastOrder⟩ := least_of_alike (a := a) (b := b) rfl
  obtain ⟨hgreatest, hgreatestOrder⟩ := greatest_of_alike (a := a) (b := b) rfl
  obtain ⟨hclosest, hclosestOrder⟩ := limited_of_alike (v := v) hrange
  have hmin : has least _ := HasValue.call (.inl rfl) (.cons hfirst (.cons hsecond .nil)) (applyBuiltin_min a b)
  have hmax : has greatest _ :=
    HasValue.call (.inr (.inl rfl)) (.cons hfirst (.cons hsecond .nil)) (applyBuiltin_max a b)
  have hconstrain : has confined _ :=
    HasValue.call (.inr (.inr rfl)) (.cons hmoved (.cons hbottom (.cons htop .nil))) (applyBuiltin_constrain v low high)
  have hle (x y : Int64) : BinaryOp.le.apply arithmetic (.int x) (.int y) = .ok (.bool (decide (x ≤ y))) := by
    rw [decide_eq_decide.2 Int64.le_iff_toInt_le]
    rfl
  have hge (x y : Int64) : BinaryOp.ge.apply arithmetic (.int x) (.int y) = .ok (.bool (decide (y ≤ x))) := by
    rw [decide_eq_decide.2 Int64.le_iff_toInt_le]
    rfl
  refine ⟨⟨_, hmin, hleast⟩, ⟨_, hmax, hgreatest⟩, ⟨_, hconstrain, hclosest⟩, ?_, ?_, ?_, ?_⟩
  · rw [← decide_eq_decide.2 hleastOrder, Bool.decide_and]
    exact (hmin.binary (by decide) hfirst (hle _ _)).and (hmin.binary (by decide) hsecond (hle _ _))
  · rw [← decide_eq_decide.2 hgreatestOrder, Bool.decide_and]
    exact (hmax.binary (by decide) hfirst (hge _ _)).and (hmax.binary (by decide) hsecond (hge _ _))
  · rw [← decide_eq_decide.2 hclosestOrder, Bool.decide_and]
    exact (hbottom.binary (by decide) hconstrain (hle _ _)).and (hconstrain.binary (by decide) htop (hle _ _))
  · intro x y halike hne
    refine ⟨?_, halike.close⟩
    by_contra hbits
    exact hne (halike.eq_of_lt (not_le.1 hbits))

/-- Integers of 54 bits that have different floats. -/
theorem order_of_integers_apart :
    let has := HasValue (environment (invoke 0)) .integer (.start 2 (.ofMillis 30) 1 1 0)
    (∀ n, has (.literal (.int n)) (.int n)) ∧ (0 : Int64) ≤ 9007199254740992 ∧
      has (.call "max" [.literal (.int 9007199254740993), .literal (.int 9007199254740995)]) (.int 9007199254740995) ∧
      has (.call "constrain" [.literal (.int 9007199254740995), .literal (.int 0), .literal (.int 9007199254740992)])
        (.int 9007199254740992) := by
  intro has
  have literal : ∀ n, has (.literal (.int n)) (.int n) := fun n => HasValue.literal (.int n)
  have hrange : (0 : Int64) ≤ 9007199254740992 := by decide
  obtain ⟨-, ⟨n, hmax, hn⟩, ⟨k, hconstrain, hk⟩, -⟩ := order_of_integers (literal 9007199254740993)
    (literal 9007199254740995) (literal 9007199254740995) (literal 0) (literal 9007199254740992) hrange
  rw [if_neg (by decide)] at hn hk
  obtain rfl : n = 9007199254740995 := Int64.toInt_inj.1 (hn.trans (by decide))
  have hend := hk.closest 9007199254740992 hrange (Int64.le_refl _)
  have hle := hk.le_high
  obtain rfl : k = 9007199254740992 := by
    rw [Int64.le_iff_toInt_le] at hle
    rw [← Int64.toInt_inj]
    have hv : (9007199254740995 : Int64).toInt = 9007199254740995 := by decide
    have hhigh : (9007199254740992 : Int64).toInt = 9007199254740992 := by decide
    rw [hv, hhigh, abs_eq_max_neg, abs_eq_max_neg] at hend
    omega
  exact ⟨literal, hrange, hmax, hconstrain⟩

/-- An integer of 54 bits stays above its range, and the lesser of two is taken for the greater. -/
theorem constrain_out_of_range :
    (0 : Int64) ≤ 9007199254740992 ∧ ¬ (9007199254740993 : Int64) ≤ 9007199254740992 ∧
      applyBuiltin .constrain [.int 9007199254740993, .int 0, .int 9007199254740992] =
        .ok (.int 9007199254740993) ∧
      applyBuiltin .max [.int 9007199254740992, .int 9007199254740993] = .ok (.int 9007199254740992) := by
  rw [applyBuiltin_constrain, applyBuiltin_max]
  refine ⟨by decide, by decide, ?_, ?_⟩
  · rfl
  · rfl

end RunningLights.Procedure
