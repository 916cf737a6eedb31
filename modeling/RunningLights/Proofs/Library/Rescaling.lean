import RunningLights.Procedure.Library
import Mathlib

/-!
# Moving a number from one range to another

The library function `map` takes the place of a number between `a` and `b` to the same place between `c` and `d`.  On
integers the exact place is a fraction, whose whole part counts:

* `wholePart` — a fraction cut off at the point, which keeps the order of fractions;
* `rescaled` — where a number goes to: the ends to the ends, the order is kept or reversed throughout;
* `Rescales` — every intermediate result is a 64-bit integer;
* `Library.mapRange_rescales` — then and only then the function has a value, which is the number rescaled.
-/

namespace RunningLights.Library

open Number

/-! ### Whole parts -/

/-- A fraction cut off at the point. -/
def wholePart (q : ℚ) : ℤ := if 0 ≤ q then ⌊q⌋ else ⌈q⌉

theorem wholePart_neg (q : ℚ) : wholePart (-q) = -wholePart q := by
  unfold wholePart
  rcases lt_trichotomy q 0 with h | rfl | h
  · rw [if_pos (by linarith), if_neg (by linarith), Int.floor_neg]
  · simp
  · rw [if_neg (by linarith), if_pos h.le, Int.ceil_neg]

theorem wholePart_mono {p q : ℚ} (h : p ≤ q) : wholePart p ≤ wholePart q := by
  unfold wholePart
  split <;> split
  · exact Int.floor_le_floor h
  · linarith
  · -- The point lies between them.
    rename_i hp hq
    have hleft : ⌈p⌉ ≤ 0 := Int.ceil_le.2 (by push_cast; linarith)
    have hright : 0 ≤ ⌊q⌋ := Int.floor_nonneg.2 hq
    exact hleft.trans hright
  · exact Int.ceil_le_ceil h

/-- The quotient of integers that is cut off at the point. -/
theorem tdiv_eq_wholePart (m n : ℤ) : m.tdiv n = wholePart (m / n) := by
  have natural : ∀ j k : ℕ, (j : ℤ).tdiv k = wholePart ((j : ℤ) / (k : ℤ) : ℚ) := by
    intro j k
    have hnonneg : (0 : ℚ) ≤ (j : ℤ) / (k : ℤ) := by positivity
    rw [wholePart, if_pos hnonneg, Int.cast_natCast k, Rat.floor_intCast_div_natCast]
    exact Int.tdiv_eq_ediv_of_nonneg (Int.natCast_nonneg j)
  obtain ⟨j, rfl | rfl⟩ := m.eq_nat_or_neg <;> obtain ⟨k, rfl | rfl⟩ := n.eq_nat_or_neg
  · exact natural j k
  · rw [Int.tdiv_neg, natural, Int.cast_neg, div_neg, wholePart_neg]
  · rw [Int.neg_tdiv, natural, Int.cast_neg, neg_div, wholePart_neg]
  · rw [Int.tdiv_neg, Int.neg_tdiv, natural, Int.cast_neg, Int.cast_neg, neg_div_neg_eq, neg_neg]

/-! ### Exact places -/

/-- How far behind `c` the exact place of `x` is if the range `a … b` is moved to `c … d`. -/
def advance (x a b c d : ℤ) : ℚ := (x - a) * (d - c) / (b - a)

/-- Where `x` goes to if the range `a … b` is moved to `c … d`. -/
def rescaled (x a b c d : ℤ) : ℤ := c + wholePart (advance x a b c d)

theorem wholePart_advance (x a b c d : ℤ) :
    wholePart (advance x a b c d) = ((x - a) * (d - c)).tdiv (b - a) := by
  rw [tdiv_eq_wholePart, advance]
  push_cast
  rfl

theorem rescaled_left (a b c d : ℤ) : rescaled a a b c d = c := by
  rw [rescaled, wholePart_advance, sub_self, zero_mul, Int.zero_tdiv, add_zero]

theorem rescaled_right {a b : ℤ} (h : a ≠ b) (c d : ℤ) : rescaled b a b c d = d := by
  have hwidth : b - a ≠ 0 := sub_ne_zero.2 h.symm
  rw [rescaled, wholePart_advance, Int.mul_tdiv_cancel_left _ hwidth]
  omega

theorem rescaled_mono {a b c d : ℤ} (hab : a < b) (hcd : c ≤ d) {x y : ℤ} (hxy : x ≤ y) :
    rescaled x a b c d ≤ rescaled y a b c d := by
  have hwidth : (0 : ℚ) < b - a := sub_pos.2 (Int.cast_lt.2 hab)
  have hspan : (0 : ℚ) ≤ d - c := sub_nonneg.2 (Int.cast_le.2 hcd)
  have hplace : (x : ℚ) ≤ y := Int.cast_le.2 hxy
  have hadvance : advance x a b c d ≤ advance y a b c d := by
    unfold advance
    gcongr
  have := wholePart_mono hadvance
  unfold rescaled
  omega

/-! ### The library function -/

/-- Every intermediate result of the formula is a 64-bit integer. -/
structure Rescales (x a b c d : ℤ) : Prop where
  offset : Fits (x - a)
  span : Fits (d - c)
  product : Fits ((x - a) * (d - c))
  width : Fits (b - a)
  quotient : Fits (wholePart (advance x a b c d))
  place : Fits (rescaled x a b c d)

theorem fit?_of_fits {n : ℤ} (h : Fits n) : ∃ w, fit? n = some w ∧ w.toInt = n :=
  ⟨_, if_pos h, toInt_ofInt_of_fits h⟩

section

variable {x a b c d : Int64}

theorem mapInts_of_rescales (hab : a ≠ b) (h : Rescales x.toInt a.toInt b.toInt c.toInt d.toInt) :
    ∃ n : Int64, mapInts x a b c d = .ok (.int n) ∧ n.toInt = rescaled x.toInt a.toInt b.toInt c.toInt d.toInt := by
  obtain ⟨dx, hdx, hdx'⟩ := fit?_of_fits h.offset
  obtain ⟨span, hspan, hspan'⟩ := fit?_of_fits h.span
  obtain ⟨num, hnum, hnum'⟩ := fit?_of_fits h.product
  obtain ⟨den, hden, hden'⟩ := fit?_of_fits h.width
  obtain ⟨quotient, hquotient, hquotient'⟩ := fit?_of_fits h.quotient
  obtain ⟨n, hn, hn'⟩ := fit?_of_fits h.place
  refine ⟨n, ?_, hn'⟩
  rw [wholePart_advance, ← hnum', ← hden'] at hquotient
  rw [rescaled, ← hquotient', add_comm] at hn
  rw [← hdx', ← hspan'] at hnum
  simp only [mapInts, if_neg hab.symm, hdx, hspan, hnum, hden, hquotient, hn, Option.bind_eq_bind, Option.bind_some]

theorem mapInts_of_not_rescales (hab : a ≠ b) (h : ¬ Rescales x.toInt a.toInt b.toInt c.toInt d.toInt) :
    mapInts x a b c d = .error .overflow := by
  rw [mapInts, if_neg hab.symm]
  dsimp only
  split
  · rename_i n hn
    -- A result that fits at every step has every intermediate result of the formula.
    simp only [Option.bind_eq_bind, Option.bind_eq_some_iff, fit?_eq_some_iff] at hn
    obtain ⟨dx, hdx, span, hspan, num, hnum, den, hden, quotient, hquotient, hn⟩ := hn
    rw [hdx, hspan] at hnum
    rw [hnum, hden, ← wholePart_advance] at hquotient
    rw [hquotient, add_comm, ← rescaled] at hn
    exact absurd ⟨hdx ▸ fits_toInt dx, hspan ▸ fits_toInt span, hnum ▸ fits_toInt num, hden ▸ fits_toInt den,
      hquotient ▸ fits_toInt quotient, hn ▸ fits_toInt n⟩ h
  · rfl

theorem exists_of_mapInts (hab : a ≠ b) {v : Value} (h : mapInts x a b c d = .ok v) :
    ∃ n : Int64, v = .int n ∧ n.toInt = rescaled x.toInt a.toInt b.toInt c.toInt d.toInt := by
  by_cases hfits : Rescales x.toInt a.toInt b.toInt c.toInt d.toInt
  · obtain ⟨n, hn, hplace⟩ := mapInts_of_rescales hab hfits
    exact ⟨n, Except.ok.inj (h.symm.trans hn), hplace⟩
  · exact absurd (h.symm.trans (mapInts_of_not_rescales hab hfits)) nofun

theorem toInt_of_mapInts (hab : a ≠ b) {n : Int64} (h : mapInts x a b c d = .ok (.int n)) :
    n.toInt = rescaled x.toInt a.toInt b.toInt c.toInt d.toInt := by
  obtain ⟨m, hm, hplace⟩ := exists_of_mapInts hab h
  rwa [Value.int.inj hm]

end

/-- **Rescaling.**  On integers, with `a` and `b` apart, `map` gives the number rescaled exactly if every intermediate
result is a 64-bit integer, and otherwise the error of overflow.  So where it has a value it moves `a` to `c` and `b`
to `d`, and if `a` is less than `b` and `c` at most `d` it keeps the order and moves what lies between `a` and `b`
between `c` and `d`. -/
theorem mapRange_rescales {a b : Int64} (hab : a ≠ b) (c d : Int64) :
    (∀ x : Int64, Rescales x.toInt a.toInt b.toInt c.toInt d.toInt →
      ∃ n : Int64, mapRange (.int x) (.int a) (.int b) (.int c) (.int d) = .ok (.int n) ∧
        n.toInt = rescaled x.toInt a.toInt b.toInt c.toInt d.toInt) ∧
    (∀ x : Int64, ¬ Rescales x.toInt a.toInt b.toInt c.toInt d.toInt →
      mapRange (.int x) (.int a) (.int b) (.int c) (.int d) = .error .overflow) ∧
    (∀ v, mapRange (.int a) (.int a) (.int b) (.int c) (.int d) = .ok v → v = .int c) ∧
    (∀ v, mapRange (.int b) (.int a) (.int b) (.int c) (.int d) = .ok v → v = .int d) ∧
    (a < b → c ≤ d → ∀ x y m n, mapRange (.int x) (.int a) (.int b) (.int c) (.int d) = .ok (.int m) →
      mapRange (.int y) (.int a) (.int b) (.int c) (.int d) = .ok (.int n) → x ≤ y → m ≤ n) ∧
    (a < b → c ≤ d → ∀ x n, mapRange (.int x) (.int a) (.int b) (.int c) (.int d) = .ok (.int n) →
      a ≤ x → x ≤ b → c ≤ n ∧ n ≤ d) := by
  have hends : a.toInt ≠ b.toInt := fun h => hab (Int64.toInt_inj.1 h)
  refine ⟨fun x h => mapInts_of_rescales hab h, fun x h => mapInts_of_not_rescales hab h, ?_, ?_, ?_, ?_⟩
  · intro v hv
    obtain ⟨n, rfl, hn⟩ := exists_of_mapInts hab hv
    rw [rescaled_left] at hn
    rw [Int64.toInt_inj.1 hn]
  · intro v hv
    obtain ⟨n, rfl, hn⟩ := exists_of_mapInts hab hv
    rw [rescaled_right hends] at hn
    rw [Int64.toInt_inj.1 hn]
  · intro hlt hle x y m n hm hn hxy
    rw [Int64.le_iff_toInt_le, toInt_of_mapInts hab hm, toInt_of_mapInts hab hn]
    exact rescaled_mono (Int64.lt_iff_toInt_lt.1 hlt) (Int64.le_iff_toInt_le.1 hle) (Int64.le_iff_toInt_le.1 hxy)
  · intro hlt hle x n hn hleft hright
    have hlt := Int64.lt_iff_toInt_lt.1 hlt
    have hle := Int64.le_iff_toInt_le.1 hle
    have hleft := rescaled_mono hlt hle (Int64.le_iff_toInt_le.1 hleft)
    have hright := rescaled_mono hlt hle (Int64.le_iff_toInt_le.1 hright)
    rw [rescaled_left, ← toInt_of_mapInts hab hn] at hleft
    rw [rescaled_right hends, ← toInt_of_mapInts hab hn] at hright
    exact ⟨Int64.le_iff_toInt_le.2 hleft, Int64.le_iff_toInt_le.2 hright⟩

/-- A range that runs downwards: the quotient is 20.2. -/
theorem mapRange_rescales_downwards :
    (10 : Int64) ≠ -5 ∧ Rescales 7 10 (-5) 0 101 ∧
      mapRange (.int 7) (.int 10) (.int (-5)) (.int 0) (.int 101) = .ok (.int 20) := by
  have hrescales : Rescales 7 10 (-5) 0 101 := by constructor <;> decide +kernel
  obtain ⟨hvalue, -⟩ := mapRange_rescales (a := 10) (b := -5) (by decide) 0 101
  obtain ⟨n, hn, hplace⟩ := hvalue 7 hrescales
  have hplace : n.toInt = (20 : Int64).toInt := hplace.trans (by decide +kernel)
  exact ⟨by decide, hrescales, hn.trans (by rw [Int64.toInt_inj.1 hplace])⟩

end RunningLights.Library
