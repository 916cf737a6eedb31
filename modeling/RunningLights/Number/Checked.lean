/-!
# Checked integers

Programs compute with 64-bit integers.  An operation is carried out on the exact integers and its result is
brought back into the range: `fit?` refuses a result that leaves it, `clamp` moves it to the nearest end.

* `fit?_eq_some_iff` — a result is accepted exactly when it is the value of the word;
* `toInt_clamp` — the clamped word is the exact result cut off at the two ends.
-/

namespace RunningLights.Number

/-- The least 64-bit integer. -/
def minInt : Int := -9223372036854775808

/-- The greatest 64-bit integer. -/
def maxInt : Int := 9223372036854775807

/-- The number of values of a 64-bit word, above all that count without a sign. -/
def wordBound : Nat := 18446744073709551616

/-- The exact integer `n` is the value of a 64-bit word. -/
def Fits (n : Int) : Prop := minInt ≤ n ∧ n ≤ maxInt

instance (n : Int) : Decidable (Fits n) := inferInstanceAs (Decidable (_ ∧ _))

/-- The word of value `n`, if there is one. -/
def fit? (n : Int) : Option Int64 := if Fits n then some (Int64.ofInt n) else none

/-- The word whose value is closest to `n`. -/
def clamp (n : Int) : Int64 := Int64.ofInt (max minInt (min maxInt n))

/-! ### What the two conversions keep -/

theorem fits_toInt (x : Int64) : Fits x.toInt := by
  have h₁ := x.le_toInt
  have h₂ := x.toInt_lt
  simp only [Fits, minInt, maxInt]
  omega

theorem toInt_ofInt_of_fits {n : Int} (h : Fits n) : (Int64.ofInt n).toInt = n := by
  simp only [Fits, minInt, maxInt] at h
  exact Int64.toInt_ofInt_of_le (by omega) (by omega)

theorem fit?_eq_some_iff {n : Int} {x : Int64} : fit? n = some x ↔ x.toInt = n := by
  unfold fit?
  constructor
  · intro h
    split at h
    · rename_i hn
      rw [← Option.some.inj h, toInt_ofInt_of_fits hn]
    · cases h
  · rintro rfl
    rw [if_pos (fits_toInt x), Int64.ofInt_toInt]

theorem fit?_eq_none_iff {n : Int} : fit? n = none ↔ ¬ Fits n := by
  unfold fit?
  split <;> simp_all

theorem toInt_clamp (n : Int) : (clamp n).toInt = max minInt (min maxInt n) := by
  apply toInt_ofInt_of_fits
  simp only [Fits, minInt, maxInt]
  omega

theorem clamp_toInt (x : Int64) : clamp x.toInt = x := by
  have h := fits_toInt x
  have : max minInt (min maxInt x.toInt) = x.toInt := by
    simp only [Fits] at h
    omega
  rw [clamp, this, Int64.ofInt_toInt]

end RunningLights.Number
