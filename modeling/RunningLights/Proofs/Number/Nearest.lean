import RunningLights.Proofs.Number.Rounding
import Mathlib

/-!
# The float closest to an integer

An integer of more than 53 bits loses its last bits when it is turned into a float: it is rounded to 53 bits, and
halfway between two of these numbers to the one whose last bit is zero.

* `quotient` — division by a power of two with the result rounded so, and what is known of it;
* `nearest` — the number with 53 bits that is closest to an integer, which keeps the order;
* `Residue` — the bits that the float model keeps of what it shifts out decide on the same quotient;
* `Holds` — an unpacked float has an integer as its value, and floats are compared as their values are;
* `floatOf_le_iff`, `floatOf_lt_iff` — integers turned into floats compare as their nearest numbers do.
-/

open Float.Model Float.Model.UnpackedFloat

namespace RunningLights.Number

/-! ### Rounded quotients -/

/-- The integer closest to `m / 2 ^ k`, or the even one of two. -/
def quotient (m k : Nat) : Nat :=
  if 2 * (m % 2 ^ k) < 2 ^ k then m / 2 ^ k
  else if 2 ^ k < 2 * (m % 2 ^ k) then m / 2 ^ k + 1
  else m / 2 ^ k + m / 2 ^ k % 2

section

variable {m n k : Nat}

theorem quotient_of_lt (h : 2 * (m % 2 ^ k) < 2 ^ k) : quotient m k = m / 2 ^ k := if_pos h

theorem quotient_of_gt (h : 2 ^ k < 2 * (m % 2 ^ k)) : quotient m k = m / 2 ^ k + 1 := by
  rw [quotient, if_neg (by omega), if_pos h]

theorem quotient_of_eq (h : 2 * (m % 2 ^ k) = 2 ^ k) : quotient m k = m / 2 ^ k + m / 2 ^ k % 2 := by
  rw [quotient, if_neg (by omega), if_neg (by omega)]

theorem quotient_zero (m : Nat) : quotient m 0 = m := by
  simp [quotient, Nat.mod_one]

theorem le_quotient (m k : Nat) : m / 2 ^ k ≤ quotient m k := by
  unfold quotient
  split
  · exact le_rfl
  · split <;> omega

theorem quotient_le (m k : Nat) : quotient m k ≤ m / 2 ^ k + 1 := by
  unfold quotient
  split
  · omega
  · split <;> omega

theorem quotient_mono (h : m ≤ n) (k : Nat) : quotient m k ≤ quotient n k := by
  rcases (Nat.div_le_div_right h : m / 2 ^ k ≤ n / 2 ^ k).lt_or_eq with hlt | heq
  · have hm := quotient_le m k
    have hn := le_quotient n k
    omega
  · -- Of two with the same whole part the remainders are in order.
    have hm := Nat.div_add_mod m (2 ^ k)
    have hn := Nat.div_add_mod n (2 ^ k)
    have hmod : m % 2 ^ k ≤ n % 2 ^ k := by
      rw [heq] at hm
      omega
    rcases Nat.lt_trichotomy (2 * (m % 2 ^ k)) (2 ^ k) with hbelow | hhalf | habove
    · rw [quotient_of_lt hbelow, heq]
      exact le_quotient n k
    · rcases (by omega : 2 * (n % 2 ^ k) = 2 ^ k ∨ 2 ^ k < 2 * (n % 2 ^ k)) with hhalf' | habove
      · rw [quotient_of_eq hhalf, quotient_of_eq hhalf', heq]
      · rw [quotient_of_eq hhalf, quotient_of_gt habove, heq]
        omega
    · rw [quotient_of_gt habove, quotient_of_gt (by omega : 2 ^ k < 2 * (n % 2 ^ k)), heq]

theorem quotient_close (m k : Nat) :
    2 * m ≤ 2 * (quotient m k * 2 ^ k) + 2 ^ k ∧ 2 * (quotient m k * 2 ^ k) ≤ 2 * m + 2 ^ k := by
  have hm := Nat.div_add_mod m (2 ^ k)
  have hmod := Nat.mod_lt m (Nat.two_pow_pos k)
  rw [Nat.mul_comm] at hm
  have hcases : (quotient m k = m / 2 ^ k ∧ 2 * (m % 2 ^ k) ≤ 2 ^ k) ∨
      (quotient m k = m / 2 ^ k + 1 ∧ 2 ^ k ≤ 2 * (m % 2 ^ k)) := by
    rcases Nat.lt_trichotomy (2 * (m % 2 ^ k)) (2 ^ k) with hbelow | hhalf | habove
    · exact .inl ⟨quotient_of_lt hbelow, hbelow.le⟩
    · have := quotient_of_eq hhalf
      omega
    · exact .inr ⟨quotient_of_gt habove, habove.le⟩
  rcases hcases with ⟨h, hhalf⟩ | ⟨h, hhalf⟩
  · rw [h]
    omega
  · rw [h, Nat.add_mul, Nat.one_mul]
    omega

end

/-! ### Nearest numbers -/

/-- The number of bits by which an integer is too long for a mantissa. -/
def surplus (m : Nat) : Nat := m.log2 - 52

/-- A natural number rounded to 53 bits. -/
def nearestNat (m : Nat) : Nat := quotient m (surplus m) * 2 ^ surplus m

def nearest (n : ℤ) : ℤ := n.sign * nearestNat n.natAbs

theorem surplus_eq_zero {m : Nat} (h : m < 2 ^ 53) : surplus m = 0 := by
  rcases Nat.eq_zero_or_pos m with rfl | hpos
  · rfl
  · have := (Nat.log2_lt hpos.ne').2 h
    unfold surplus
    omega

theorem surplus_le {m k : Nat} (h : m < 2 ^ (53 + k)) : surplus m ≤ k := by
  rcases Nat.eq_zero_or_pos m with rfl | hpos
  · exact Nat.zero_le k
  · have := (Nat.log2_lt hpos.ne').2 h
    unfold surplus
    omega

theorem nearestNat_of_lt {m : Nat} (h : m < 2 ^ 53) : nearestNat m = m := by
  rw [nearestNat, surplus_eq_zero h, quotient_zero, Nat.pow_zero, Nat.mul_one]

/-- The quotient by the surplus fills the mantissa, and may be rounded up to one bit more. -/
theorem quotient_surplus {m : Nat} (h : 2 ^ 53 ≤ m) :
    2 ^ 52 ≤ quotient m (surplus m) ∧ quotient m (surplus m) ≤ 2 ^ 53 := by
  have hpos : m ≠ 0 := by omega
  have hlog : 53 ≤ m.log2 := (Nat.le_log2 hpos).2 h
  have hlow : 2 ^ 52 ≤ m / 2 ^ surplus m := by
    rw [Nat.le_div_iff_mul_le (Nat.two_pow_pos _), ← Nat.pow_add]
    refine le_trans (Nat.pow_le_pow_right (by decide) ?_) (Nat.log2_self_le hpos)
    unfold surplus
    omega
  have hhigh : m / 2 ^ surplus m < 2 ^ 53 := by
    rw [Nat.div_lt_iff_lt_mul (Nat.two_pow_pos _), ← Nat.pow_add]
    refine lt_of_lt_of_le Nat.lt_log2_self (Nat.pow_le_pow_right (by decide) ?_)
    unfold surplus
    omega
  have := le_quotient m (surplus m)
  have := quotient_le m (surplus m)
  omega

/-- A rounded number lies between the powers of two around it. -/
theorem nearestNat_bounds {m : Nat} (h : 0 < m) : 2 ^ m.log2 ≤ nearestNat m ∧ nearestNat m ≤ 2 ^ (m.log2 + 1) := by
  rcases Nat.lt_or_ge m (2 ^ 53) with hlt | hge
  · rw [nearestNat_of_lt hlt]
    exact ⟨Nat.log2_self_le h.ne', Nat.lt_log2_self.le⟩
  · have hlog : 53 ≤ m.log2 := (Nat.le_log2 h.ne').2 hge
    have hlow : m.log2 = 52 + surplus m := by
      unfold surplus
      omega
    obtain ⟨hfull, hcarry⟩ := quotient_surplus hge
    rw [show m.log2 + 1 = 53 + surplus m by omega, nearestNat]
    constructor
    · calc 2 ^ m.log2 = 2 ^ 52 * 2 ^ surplus m := by rw [← Nat.pow_add, ← hlow]
        _ ≤ quotient m (surplus m) * 2 ^ surplus m := Nat.mul_le_mul_right _ hfull
    · calc quotient m (surplus m) * 2 ^ surplus m ≤ 2 ^ 53 * 2 ^ surplus m := Nat.mul_le_mul_right _ hcarry
        _ = 2 ^ (53 + surplus m) := (Nat.pow_add ..).symm

theorem nearestNat_mono {m n : Nat} (h : m ≤ n) : nearestNat m ≤ nearestNat n := by
  rcases Nat.eq_zero_or_pos m with rfl | hm
  · exact (nearestNat_of_lt (by decide)).trans_le (Nat.zero_le _)
  · have hn : 0 < n := by omega
    have hlog : m.log2 ≤ n.log2 := (Nat.le_log2 hn.ne').2 ((Nat.log2_self_le hm.ne').trans h)
    rcases hlog.lt_or_eq with hlt | heq
    · -- A power of two lies between the two.
      calc nearestNat m ≤ 2 ^ (m.log2 + 1) := (nearestNat_bounds hm).2
        _ ≤ 2 ^ n.log2 := Nat.pow_le_pow_right (by decide) hlt
        _ ≤ nearestNat n := (nearestNat_bounds hn).1
    · have hsurplus : surplus m = surplus n := by rw [surplus, surplus, heq]
      rw [nearestNat, nearestNat, hsurplus]
      exact Nat.mul_le_mul_right _ (quotient_mono h _)

theorem nearest_natCast (m : Nat) : nearest m = nearestNat m := by
  rcases Nat.eq_zero_or_pos m with rfl | hpos
  · rfl
  · rw [nearest, Int.sign_eq_one_of_pos (by omega), Int.one_mul, Int.natAbs_natCast]

theorem nearest_neg (n : ℤ) : nearest (-n) = -nearest n := by
  rw [nearest, nearest, Int.sign_neg, Int.natAbs_neg, Int.neg_mul]

/-- **Nearest numbers.**  Rounding to 53 bits keeps the order. -/
theorem nearest_mono {a b : ℤ} (h : a ≤ b) : nearest a ≤ nearest b := by
  obtain ⟨m, rfl | rfl⟩ := a.eq_nat_or_neg <;> obtain ⟨n, rfl | rfl⟩ := b.eq_nat_or_neg
  · have := nearestNat_mono (m := m) (n := n) (by omega)
    rw [nearest_natCast, nearest_natCast]
    omega
  · obtain ⟨rfl, rfl⟩ : m = 0 ∧ n = 0 := by omega
    rfl
  · rw [nearest_neg, nearest_natCast, nearest_natCast]
    omega
  · have := nearestNat_mono (m := n) (n := m) (by omega)
    rw [nearest_neg, nearest_neg, nearest_natCast, nearest_natCast]
    omega

theorem nearest_of_lt {n : ℤ} (h : n.natAbs < 2 ^ 53) : nearest n = n := by
  rw [nearest, nearestNat_of_lt h, Int.sign_mul_natAbs]

/-- Rounding moves an integer by half a unit of its last place at most. -/
theorem nearest_close {n : ℤ} {k : Nat} (h : n.natAbs < 2 ^ (53 + k)) : 2 * |n - nearest n| ≤ 2 ^ k := by
  have hclose := quotient_close n.natAbs (surplus n.natAbs)
  have hunit : 2 ^ surplus n.natAbs ≤ 2 ^ k := Nat.pow_le_pow_right (by decide) (surplus_le h)
  have hunit' : ((2 ^ k : Nat) : ℤ) = 2 ^ k := by push_cast; rfl
  rw [← nearestNat] at hclose
  obtain ⟨m, rfl | rfl⟩ := n.eq_nat_or_neg
  · rw [Int.natAbs_natCast] at hclose hunit
    rw [nearest_natCast, ← hunit', abs_eq_max_neg]
    omega
  · rw [Int.natAbs_neg, Int.natAbs_natCast] at hclose hunit
    rw [nearest_neg, nearest_natCast, ← hunit', abs_eq_max_neg]
    omega

/-! ### Shifting a mantissa -/

/-- What the float model keeps of `m` after `k` bits have been shifted out. -/
structure Residue (em : ExtendedMantissa) (m k : Nat) : Prop where
  mantissa : em.mantissa = m / 2 ^ k
  roundBit : em.roundBit = true ↔ 2 ^ k ≤ 2 * (m % 2 ^ k)
  stickyBit : em.stickyBit = true ↔ m % 2 ^ k ≠ 0 ∧ 2 * (m % 2 ^ k) ≠ 2 ^ k

theorem Residue.start (m : Nat) : Residue ⟨m, false, false⟩ m 0 := by
  constructor <;> simp [Nat.mod_one]

/-- One more bit is shifted out. -/
theorem Residue.shiftRightOne {em : ExtendedMantissa} {m k : Nat} (h : Residue em m k) :
    Residue em.shiftRightOne m (k + 1) := by
  have hmod := Nat.mod_lt m (Nat.two_pow_pos k)
  have hsplit : m % 2 ^ (k + 1) = m % 2 ^ k + 2 ^ k * (m / 2 ^ k % 2) := Nat.mod_pow_succ
  have hpow : 2 ^ (k + 1) = 2 * 2 ^ k := Nat.pow_succ'
  have hbit : m / 2 ^ k % 2 = 0 ∨ m / 2 ^ k % 2 = 1 := by omega
  refine ⟨?_, ?_, ?_⟩
  · rw [ExtendedMantissa.shiftRightOne, h.mantissa, Nat.div_div_eq_div_mul, ← Nat.pow_succ]
  · simp only [ExtendedMantissa.shiftRightOne, h.mantissa, bne_iff_ne]
    rw [hsplit, hpow]
    rcases hbit with hbit | hbit <;> rw [hbit] <;> omega
  · simp only [ExtendedMantissa.shiftRightOne, Bool.or_eq_true, h.roundBit, h.stickyBit]
    rw [hsplit, hpow]
    rcases hbit with hbit | hbit <;> rw [hbit] <;> omega

theorem Residue.shiftRight (m k : Nat) : Residue ((⟨m, false, false⟩ : ExtendedMantissa) >>> k) m k := by
  induction k with
  | zero => exact Residue.start m
  | succ k ih => exact ih.shiftRightOne

/-- The bits that are kept decide on the rounded quotient. -/
theorem Residue.roundedMantissa {em : ExtendedMantissa} {m k : Nat} (h : Residue em m k) :
    em.roundedMantissa = quotient m k := by
  obtain ⟨mantissa, roundBit, stickyBit⟩ := em
  obtain ⟨rfl, hround, hsticky⟩ := h
  cases roundBit <;> cases stickyBit <;>
    simp only [Bool.false_eq_true, false_iff, true_iff, not_le] at hround hsticky
  · exact (quotient_of_lt hround).symm
  · exact (quotient_of_lt hround).symm
  · exact (quotient_of_eq (by omega)).symm
  · exact (quotient_of_gt (by omega)).symm

/-! ### Values of floats -/

/-- An unpacked float with a full mantissa, or zero, has the value `n`. -/
inductive Holds : UnpackedFloat → ℤ → Prop
  | zero (s : Sign) : Holds (.zero s) 0
  | finite (s : Sign) {m k n : Nat} {e : ℤ} (hm : 0 < m) (h₁ : 2 ^ 52 ≤ m) (h₂ : m < 2 ^ 53) (he : e = k - 52)
      (h : m * 2 ^ k = n * 2 ^ 52) : Holds (.finite s m e hm) (s.apply n)

section

variable {m : Nat}

theorem targetExponent_surplus (h : 2 ^ 53 ≤ m) : Format.binary64.targetExponent (totalExponent m 0) = surplus m := by
  have hlog : 53 ≤ m.log2 := (Nat.le_log2 (by omega)).2 h
  simp only [Format.targetExponent, totalExponent, Format.mantissaBits, Format.minExponent, surplus]
  omega

theorem shiftToTargetExponent_surplus (h : 2 ^ 53 ≤ m) :
    shiftToTargetExponent Format.binary64 m 0 .exact =
      ((⟨m, false, false⟩ : ExtendedMantissa) >>> surplus m, (surplus m : ℤ)) := by
  simp only [shiftToTargetExponent, targetExponent_surplus h, shiftToExponent,
    ExtendedMantissa.ofMantissaAndAccuracy, Int.sub_zero, Int.toNat_natCast, Int.zero_add]

/-- A mantissa that is rounded up to one bit more gives that bit off again. -/
theorem shiftToTargetExponent_carry {e : ℤ} (he : -1074 ≤ e) :
    shiftToTargetExponent Format.binary64 (2 ^ 53) e .exact = (⟨2 ^ 52, false, false⟩, e + 1) := by
  have hlog : Nat.log2 (2 ^ 53) = 53 := Nat.log2_two_pow
  have target : Format.binary64.targetExponent (totalExponent (2 ^ 53) e) = e + 1 := by
    simp only [Format.targetExponent, totalExponent, hlog, Format.mantissaBits, Format.minExponent]
    omega
  have hshift : (e + 1 - e).toNat = 1 := by omega
  simp only [shiftToTargetExponent, target, shiftToExponent, hshift]
  rfl

/-- A number of more than 53 bits is shifted to the right and rounded. -/
theorem holds_roundWithAccuracy (s : Sign) (h : 2 ^ 53 ≤ m) :
    Holds (roundWithAccuracy Format.binary64 s m 0 .exact) (s.apply (nearestNat m)) := by
  obtain ⟨hfull, hcarry⟩ := quotient_surplus h
  have hrounded := (Residue.shiftRight m (surplus m)).roundedMantissa
  simp only [roundWithAccuracy, shiftToTargetExponent_surplus h, hrounded]
  rcases hcarry.lt_or_eq with hlt | heq
  · simp only [shiftToTargetExponent_full hfull hlt (by omega : (-1074 : ℤ) ≤ surplus m)]
    rw [dif_neg (by omega)]
    refine Holds.finite s _ hfull hlt (by omega : (surplus m : ℤ) = (surplus m + 52 : Nat) - 52) ?_
    rw [nearestNat, Nat.pow_add, Nat.mul_assoc]
  · simp only [heq, shiftToTargetExponent_carry (by omega : (-1074 : ℤ) ≤ surplus m)]
    rw [dif_neg (by decide)]
    refine Holds.finite s _ le_rfl (by decide) (by omega : (surplus m : ℤ) + 1 = (surplus m + 53 : Nat) - 52) ?_
    rw [nearestNat, heq, Nat.pow_add]
    ring

/-- **Rounding.**  A natural number is rounded to its nearest number. -/
theorem holds_round (s : Sign) (h : 0 < m) : Holds (round Format.binary64 s m 0) (s.apply (nearestNat m)) := by
  rcases Nat.lt_or_ge m (2 ^ 53) with hlt | hge
  · have hlog : m.log2 < 53 := (Nat.log2_lt h.ne').2 hlt
    rw [round_integer s h hlt, nearestNat_of_lt hlt]
    refine Holds.finite s _ (le_topped h hlt) (topped_lt h hlt) rfl ?_
    rw [topped, Nat.mul_assoc, ← Nat.pow_add]
    congr 2
    omega
  · have kept : decreaseExponent m 0 (surplus m) = (m, 0) := by
      have hshift : (0 - (surplus m : ℤ)).toNat = 0 := by omega
      simp only [decreaseExponent, hshift, Nat.shiftLeft_zero, Int.natCast_zero, Int.sub_zero]
    simp only [UnpackedFloat.round, targetExponent_surplus hge, kept]
    exact holds_roundWithAccuracy s hge

end

/-- A value is read back from its bits. -/
theorem Holds.unpack_pack {x : UnpackedFloat} {n : ℤ} (h : Holds x n) (hn : n.natAbs ≤ 2 ^ 64) :
    Holds (Float.Model.pack x).unpack n := by
  cases h with
  | zero s => cases s <;> exact Holds.zero _
  | @finite s m k n e hm h₁ h₂ he h =>
    have hn : n ≤ 2 ^ 64 := by
      cases s <;> simpa [Sign.apply] using hn
    have hk : k ≤ 64 := by
      have hpow : 2 ^ k * 2 ^ 52 ≤ 2 ^ 64 * 2 ^ 52 := by
        calc 2 ^ k * 2 ^ 52 ≤ 2 ^ k * m := Nat.mul_le_mul_left _ h₁
          _ = n * 2 ^ 52 := by rw [Nat.mul_comm, h]
          _ ≤ 2 ^ 64 * 2 ^ 52 := Nat.mul_le_mul_right _ hn
      exact (Nat.pow_le_pow_iff_right (by decide)).1 (Nat.le_of_mul_le_mul_right hpow (by decide))
    rw [Number.unpack_pack h₁ h₂ (by omega) (by omega) hm]
    exact Holds.finite s hm h₁ h₂ he h

theorem Holds.neg {x : UnpackedFloat} {n : ℤ} (h : Holds x n) : Holds x.neg (-n) := by
  cases h with
  | zero s => exact Holds.zero (-s)
  | finite s hm h₁ h₂ he h =>
    have := Holds.finite (-s) hm h₁ h₂ he h
    cases s
    · rwa [Sign.apply, neg_neg]
    · exact this

theorem lt_of_exponent_lt {m₁ m₂ k₁ k₂ n₁ n₂ : Nat} (hm₁ : m₁ < 2 ^ 53) (hm₂ : 2 ^ 52 ≤ m₂)
    (h₁ : m₁ * 2 ^ k₁ = n₁ * 2 ^ 52) (h₂ : m₂ * 2 ^ k₂ = n₂ * 2 ^ 52) (hk : k₁ < k₂) : n₁ < n₂ := by
  have hpow : n₁ * 2 ^ 52 < n₂ * 2 ^ 52 := by
    calc n₁ * 2 ^ 52 = m₁ * 2 ^ k₁ := h₁.symm
      _ < 2 ^ 53 * 2 ^ k₁ := Nat.mul_lt_mul_of_pos_right hm₁ (Nat.two_pow_pos _)
      _ = 2 ^ 52 * 2 ^ (k₁ + 1) := by ring
      _ ≤ 2 ^ 52 * 2 ^ k₂ := Nat.mul_le_mul_left _ (Nat.pow_le_pow_right (by decide) hk)
      _ ≤ m₂ * 2 ^ k₂ := Nat.mul_le_mul_right _ hm₂
      _ = n₂ * 2 ^ 52 := h₂
  exact Nat.lt_of_mul_lt_mul_right hpow

theorem lt_of_mantissa_lt {m₁ m₂ k n₁ n₂ : Nat} (h₁ : m₁ * 2 ^ k = n₁ * 2 ^ 52) (h₂ : m₂ * 2 ^ k = n₂ * 2 ^ 52)
    (hm : m₁ < m₂) : n₁ < n₂ := by
  have hpow : n₁ * 2 ^ 52 < n₂ * 2 ^ 52 := by
    rw [← h₁, ← h₂]
    exact Nat.mul_lt_mul_of_pos_right hm (Nat.two_pow_pos _)
  exact Nat.lt_of_mul_lt_mul_right hpow

/-- Full mantissas are compared by their exponents first. -/
theorem compare_full {m₁ m₂ k₁ k₂ n₁ n₂ : Nat} {e₁ e₂ : ℤ} (hm₁ : 2 ^ 52 ≤ m₁) (hm₁' : m₁ < 2 ^ 53)
    (hm₂ : 2 ^ 52 ≤ m₂) (hm₂' : m₂ < 2 ^ 53) (he₁ : e₁ = k₁ - 52) (he₂ : e₂ = k₂ - 52)
    (h₁ : m₁ * 2 ^ k₁ = n₁ * 2 ^ 52) (h₂ : m₂ * 2 ^ k₂ = n₂ * 2 ^ 52) :
    (compare e₁ e₂).then (compare m₁ m₂) = compare n₁ n₂ := by
  subst he₁ he₂
  rcases Nat.lt_trichotomy k₁ k₂ with hlt | rfl | hgt
  · rw [compare_lt_iff_lt.2 (by omega), compare_lt_iff_lt.2 (lt_of_exponent_lt hm₁' hm₂ h₁ h₂ hlt)]
    rfl
  · rw [compare_eq_iff_eq.2 rfl, Ordering.eq_then]
    rcases Nat.lt_trichotomy m₁ m₂ with hlt | rfl | hgt
    · rw [compare_lt_iff_lt.2 hlt, compare_lt_iff_lt.2 (lt_of_mantissa_lt h₁ h₂ hlt)]
    · obtain rfl : n₁ = n₂ := Nat.eq_of_mul_eq_mul_right (by decide) (h₁.symm.trans h₂)
      rw [compare_eq_iff_eq.2 rfl, compare_eq_iff_eq.2 rfl]
    · rw [compare_gt_iff_gt.2 hgt, compare_gt_iff_gt.2 (lt_of_mantissa_lt h₂ h₁ hgt)]
  · rw [compare_gt_iff_gt.2 (by omega), compare_gt_iff_gt.2 (lt_of_exponent_lt hm₂' hm₁ h₂ h₁ hgt)]
    rfl

theorem pos_of_full {m k n : Nat} (hm : 0 < m) (h : m * 2 ^ k = n * 2 ^ 52) : 0 < n := by
  have := Nat.mul_pos hm (Nat.two_pow_pos k)
  omega

theorem compare_natCast (m n : Nat) : compare (m : ℤ) n = compare m n := by
  rcases Nat.lt_trichotomy m n with h | rfl | h
  · rw [compare_lt_iff_lt.2 h, compare_lt_iff_lt.2 (by omega)]
  · rw [compare_eq_iff_eq.2 rfl, compare_eq_iff_eq.2 rfl]
  · rw [compare_gt_iff_gt.2 h, compare_gt_iff_gt.2 (by omega)]

theorem compare_neg (m n : Nat) : compare (-(m : ℤ)) (-n) = (compare m n).swap := by
  rw [Nat.compare_swap, ← compare_natCast]
  rcases Int.lt_trichotomy n m with h | h | h
  · rw [compare_lt_iff_lt.2 h, compare_lt_iff_lt.2 (by omega)]
  · rw [compare_eq_iff_eq.2 h, compare_eq_iff_eq.2 (by omega)]
  · rw [compare_gt_iff_gt.2 h, compare_gt_iff_gt.2 (by omega)]

/-- **Comparing floats.**  Floats are compared as their values are. -/
theorem Holds.compare {x y : UnpackedFloat} {a b : ℤ} (hx : Holds x a) (hy : Holds y b) :
    x.compare y = some (compare a b) := by
  cases hx with
  | zero s =>
    cases hy with
    | zero t => rfl
    | @finite t m k n e hm h₁ h₂ he h =>
      have hpos := pos_of_full hm h
      cases t
      · exact congrArg some (compare_gt_iff_gt.2 (by simp only [Sign.apply]; omega)).symm
      · exact congrArg some (compare_lt_iff_lt.2 (by simp only [Sign.apply]; omega)).symm
  | @finite s m k n e hm h₁ h₂ he h =>
    have hpos := pos_of_full hm h
    cases hy with
    | zero t =>
      cases s
      · exact congrArg some (compare_lt_iff_lt.2 (by simp only [Sign.apply]; omega)).symm
      · exact congrArg some (compare_gt_iff_gt.2 (by simp only [Sign.apply]; omega)).symm
    | @finite t m' k' n' e' hm' h₁' h₂' he' h' =>
      have hpos' := pos_of_full hm' h'
      have hcompare := compare_full h₁ h₂ h₁' h₂' he he' h h'
      cases s <;> cases t <;> simp only [UnpackedFloat.compare, hcompare, Sign.apply, compare_natCast, compare_neg]
      · exact congrArg some (compare_lt_iff_lt.2 (by omega)).symm
      · exact congrArg some (compare_gt_iff_gt.2 (by omega)).symm

/-! ### Comparing integers as floats -/

theorem le_iff (x y : Float) : x ≤ y ↔ x.toModel.unpack.le y.toModel.unpack = true := decide_eq_true_iff

theorem Holds.le_iff {x y : UnpackedFloat} {a b : ℤ} (hx : Holds x a) (hy : Holds y b) : x.le y = true ↔ a ≤ b := by
  rw [UnpackedFloat.le, hx.compare hy, Option.any_some, Int.isLE_compare]

theorem Holds.lt_iff {x y : UnpackedFloat} {a b : ℤ} (hx : Holds x a) (hy : Holds y b) : x.lt y = true ↔ a < b := by
  rw [UnpackedFloat.lt, hx.compare hy, beq_iff_eq, Option.some_inj, compare_lt_iff_lt]

theorem nearestNat_le {m : Nat} (h : m ≤ 2 ^ 63) : nearestNat m ≤ 2 ^ 64 :=
  (nearestNat_mono h).trans (by decide)

/-- A magnitude is turned into its nearest number. -/
theorem holds_toFloat {m : Nat} (h : m ≤ 2 ^ 63) : Holds (UInt64.ofNat m).toFloat.toModel.unpack (nearestNat m) := by
  have held : (UInt64.ofNat m).toNat = m := by
    rw [UInt64.toNat_ofNat']
    omega
  have normalized : Holds (UnpackedFloat.ofUInt64 Format.binary64 (UInt64.ofNat m)) (nearestNat m) := by
    simp only [UnpackedFloat.ofUInt64, UnpackedFloat.ofNat, UnpackedFloat.ofInt, held, UnpackedFloat.normalize]
    rcases Nat.eq_zero_or_pos m with rfl | hpos
    · exact Holds.zero .positive
    · rw [compare_gt_iff_gt.2 (by omega), Int.toNat_natCast]
      exact holds_round .positive hpos
  refine normalized.unpack_pack ?_
  rw [Int.natAbs_natCast]
  exact nearestNat_le h

/-- **Turning integers into floats.**  The value of the float is the nearest number. -/
theorem holds_floatOf (n : Int64) : Holds (floatOf n).toModel.unpack (nearest n.toInt) := by
  have hn := n.toInt_lt
  have hn' := n.le_toInt
  have magnitude := holds_toFloat (m := n.toInt.natAbs) (by omega)
  unfold floatOf
  split
  · rename_i hneg
    have hvalue : nearest n.toInt = -nearestNat n.toInt.natAbs := by
      rw [nearest, Int.sign_eq_neg_one_of_neg hneg, Int.neg_one_mul]
    rw [hvalue]
    refine magnitude.neg.unpack_pack ?_
    rw [Int.natAbs_neg, Int.natAbs_natCast]
    exact nearestNat_le (by omega)
  · have hvalue : nearest n.toInt = nearestNat n.toInt.natAbs := by
      rw [← nearest_natCast]
      congr 1
      omega
    rwa [hvalue]

theorem floatOf_le_iff (a b : Int64) : floatOf a ≤ floatOf b ↔ nearest a.toInt ≤ nearest b.toInt :=
  (le_iff _ _).trans ((holds_floatOf a).le_iff (holds_floatOf b))

theorem floatOf_lt_iff (a b : Int64) : floatOf a < floatOf b ↔ nearest a.toInt < nearest b.toInt :=
  (lt_iff _ _).trans ((holds_floatOf a).lt_iff (holds_floatOf b))

end RunningLights.Number
