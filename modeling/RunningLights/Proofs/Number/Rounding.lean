import RunningLights.Number.Conversion
import Mathlib

/-!
# Integers that a float holds

A float has a mantissa of 53 bits.  An integer of at most 53 bits is turned into a float whose mantissa it is, moved
up to the top, and nothing is rounded on the way there or back.

* `unpack_pack` — a number with a full mantissa is read back from its bits;
* `round_integer` — an integer of at most 53 bits is rounded to itself;
* `Precise`, `precise_of_lt` — it comes back from its float.
-/

open Float.Model Float.Model.UnpackedFloat

namespace RunningLights.Number

/-! ### Packing -/

/-- The implicit bit stands in front of the stored ones. -/
theorem toNat_implicit {m : Nat} (h₁ : 2 ^ 52 ≤ m) (h₂ : m < 2 ^ 53) :
    (1#1 ++ BitVec.ofNat 52 m).toNat = m := by
  rw [BitVec.toNat_append, ← Nat.shiftLeft_add_eq_or_of_lt (BitVec.isLt _), BitVec.toNat_ofNat, Nat.shiftLeft_eq]
  simp only [BitVec.toNat_ofNat]
  omega

theorem log2_full {m : Nat} (h₁ : 2 ^ 52 ≤ m) (h₂ : m < 2 ^ 53) : m.log2 = 52 := by
  have h : m ≠ 0 := by omega
  have := (Nat.le_log2 h).2 h₁
  have := (Nat.log2_lt h).2 h₂
  omega

/-- **Packing.**  A number with a full mantissa and an exponent in range is read back from its bits. -/
theorem unpack_pack {s : Sign} {m : Nat} {e : Int} (h₁ : 2 ^ 52 ≤ m) (h₂ : m < 2 ^ 53) (he₁ : -1074 ≤ e)
    (he₂ : e ≤ 971) (hm : 0 < m) :
    (Float.Model.pack (.finite s m e hm)).unpack = .finite s m e hm := by
  obtain ⟨b, hb⟩ : ∃ b : Nat, e + 1023 + 52 = b := ⟨_, (Int.toNat_of_nonneg (by omega)).symm⟩
  have toNat_exponent : (BitVec.ofNat 11 b).toNat = b := by
    rw [BitVec.toNat_ofNat]
    omega
  have exponent_ne_ones : BitVec.ofNat 11 b ≠ -1#11 := by
    intro h
    have := congrArg BitVec.toNat h
    rw [toNat_exponent] at this
    simp at this
    omega
  have exponent_ne_zero : BitVec.ofNat 11 b ≠ 0#11 := by
    intro h
    have := congrArg BitVec.toNat h
    rw [toNat_exponent] at this
    simp at this
    omega
  have packed : UnpackedFloat.pack Format.binary64 (.finite s m e hm)
      = packComponents Format.binary64 s (BitVec.ofNat 11 b) (BitVec.ofNat 52 m) := by
    have hbias : (e + (Format.binary64.exponentBias : Int) + (52 : Nat)).toNat = b := by
      simp only [Format.exponentBias]
      omega
    simp only [UnpackedFloat.pack, hbias, log2_full h₁ h₂]
    rw [if_neg (by omega), if_pos (by simp [Format.mantissaBits])]
  unfold Float.Model.unpack Float.Model.pack
  simp only [packed, UnpackedFloat.unpack, unpackMantissa_packComponents, unpackExponent_packComponents,
    unpackSign_packComponents, Sign.ofBitVec_toBitVec]
  rw [if_neg exponent_ne_ones, if_neg exponent_ne_zero]
  congr 1
  · exact toNat_implicit h₁ h₂
  · rw [toNat_exponent]
    simp only [Format.exponentBias]
    omega

/-! ### Rounding an integer -/

theorem shiftToTargetExponent_full {m : Nat} {e : Int} (h₁ : 2 ^ 52 ≤ m) (h₂ : m < 2 ^ 53) (he : -1074 ≤ e) :
    shiftToTargetExponent Format.binary64 m e .exact = (⟨m, false, false⟩, e) := by
  have target : Format.binary64.targetExponent (totalExponent m e) = e := by
    simp only [Format.targetExponent, totalExponent, log2_full h₁ h₂, Format.mantissaBits, Format.minExponent]
    omega
  simp [shiftToTargetExponent, shiftToExponent, target, ExtendedMantissa.ofMantissaAndAccuracy,
    HShiftRight.hShiftRight, Nat.repeat]

theorem roundWithAccuracy_full {s : Sign} {m : Nat} {e : Int} (h₁ : 2 ^ 52 ≤ m) (h₂ : m < 2 ^ 53)
    (he : -1074 ≤ e) :
    roundWithAccuracy Format.binary64 s m e .exact = .finite s m e (by omega) := by
  have kept : (ExtendedMantissa.mk m false false).roundedMantissa = m := rfl
  simp only [roundWithAccuracy, shiftToTargetExponent_full h₁ h₂ he, kept]
  rw [dif_neg (by omega)]

variable {m : Nat}

/-- The integer `m` moved up to the top of the mantissa. -/
def topped (m : Nat) : Nat := m * 2 ^ (52 - m.log2)

theorem le_topped (h₀ : 0 < m) (h : m < 2 ^ 53) : 2 ^ 52 ≤ topped m := by
  have hlog : m.log2 < 53 := (Nat.log2_lt h₀.ne').2 h
  calc 2 ^ 52 = 2 ^ m.log2 * 2 ^ (52 - m.log2) := by rw [← Nat.pow_add]; congr 1; omega
    _ ≤ topped m := Nat.mul_le_mul_right _ (Nat.log2_self_le h₀.ne')

theorem topped_lt (h₀ : 0 < m) (h : m < 2 ^ 53) : topped m < 2 ^ 53 := by
  have hlog : m.log2 < 53 := (Nat.log2_lt h₀.ne').2 h
  calc topped m < 2 ^ (m.log2 + 1) * 2 ^ (52 - m.log2) :=
        Nat.mul_lt_mul_of_pos_right Nat.lt_log2_self (Nat.two_pow_pos _)
    _ = 2 ^ 53 := by rw [← Nat.pow_add]; congr 1; omega

/-- **Rounding.**  An integer of at most 53 bits is rounded to itself. -/
theorem round_integer (s : Sign) (h₀ : 0 < m) (h : m < 2 ^ 53) :
    round Format.binary64 s m 0
      = .finite s (topped m) ((m.log2 : Int) - 52) (by have := le_topped h₀ h; omega) := by
  have hlog : m.log2 < 53 := (Nat.log2_lt h₀.ne').2 h
  have target : Format.binary64.targetExponent (totalExponent m 0) = (m.log2 : Int) - 52 := by
    simp only [Format.targetExponent, totalExponent, Format.mantissaBits, Format.minExponent]
    omega
  have moved : decreaseExponent m 0 ((m.log2 : Int) - 52) = (topped m, (m.log2 : Int) - 52) := by
    have hshift : (0 - ((m.log2 : Int) - 52)).toNat = 52 - m.log2 := by omega
    simp only [decreaseExponent, hshift, Nat.shiftLeft_eq, topped, Prod.mk.injEq, true_and]
    omega
  simp only [UnpackedFloat.round, target, moved]
  exact roundWithAccuracy_full (le_topped h₀ h) (topped_lt h₀ h) (by omega)

theorem mantissa_shiftRight (em : ExtendedMantissa) (k : Nat) : (em >>> k).mantissa = em.mantissa / 2 ^ k := by
  induction k with
  | zero => simp [HShiftRight.hShiftRight, Nat.repeat]
  | succ k ih =>
    have step : (em >>> (k + 1)).mantissa = (em >>> k).mantissa / 2 := rfl
    rw [step, ih, Nat.div_div_eq_div_mul, ← Nat.pow_succ]

/-- The integer part of what an integer is rounded to is the integer. -/
theorem roundToInt_topped (s : Sign) (h₀ : 0 < m) (h : m < 2 ^ 53) :
    roundToInt s (topped m) ((m.log2 : Int) - 52) = s.apply m := by
  have hlog : m.log2 < 53 := (Nat.log2_lt h₀.ne').2 h
  have kept : decreaseExponent (topped m) ((m.log2 : Int) - 52) 0 = (topped m, (m.log2 : Int) - 52) := by
    have hshift : ((m.log2 : Int) - 52).toNat = 0 := by omega
    simp only [decreaseExponent, Int.sub_zero, hshift, Nat.shiftLeft_zero, Int.natCast_zero]
  have hshift : (0 - ((m.log2 : Int) - 52)).toNat = 52 - m.log2 := by omega
  have back : topped m / 2 ^ (52 - m.log2) = m := Nat.mul_div_cancel _ (Nat.two_pow_pos _)
  simp only [roundToInt, kept, shiftToExponent, hshift, mantissa_shiftRight,
    ExtendedMantissa.ofMantissaAndAccuracy, back]

/-! ### There and back -/

theorem unpack_toFloat (h₀ : 0 < m) (h : m < 2 ^ 53) :
    (UInt64.ofNat m).toFloat.toModel.unpack
      = .finite .positive (topped m) ((m.log2 : Int) - 52) (by have := le_topped h₀ h; omega) := by
  have hlog : m.log2 < 53 := (Nat.log2_lt h₀.ne').2 h
  have held : (UInt64.ofNat m).toNat = m := by
    rw [UInt64.toNat_ofNat']
    omega
  have normalized : UnpackedFloat.ofUInt64 Format.binary64 (UInt64.ofNat m)
      = .finite .positive (topped m) ((m.log2 : Int) - 52) (by have := le_topped h₀ h; omega) := by
    have positive : compare (m : Int) 0 = .gt := by
      rw [compare_gt_iff_gt]
      omega
    simp only [UnpackedFloat.ofUInt64, UnpackedFloat.ofNat, UnpackedFloat.ofInt, held, UnpackedFloat.normalize,
      positive, Int.toNat_natCast]
    exact round_integer .positive h₀ h
  change (Float.Model.pack (UnpackedFloat.ofUInt64 Format.binary64 (UInt64.ofNat m))).unpack = _
  rw [normalized]
  exact unpack_pack (le_topped h₀ h) (topped_lt h₀ h) (by omega) (by omega) _

theorem toUInt64_of_unpack {f : Float.Model} {hp : 0 < topped m} (h₀ : 0 < m) (h : m < 2 ^ 53)
    (hf : f.unpack = .finite .positive (topped m) ((m.log2 : Int) - 52) hp) : f.toUInt64.toNat = m := by
  have whole : f.unpack.toInt 0 (UInt64.size - 1) = m := by
    rw [hf]
    exact roundToInt_topped .positive h₀ h
  rw [Float.Model.toUInt64, UnpackedFloat.toUInt64, whole, Int.toNat_natCast, UInt64.ofNatClamp,
    dif_pos (Nat.lt_trans h (by decide) : m < UInt64.size)]
  exact UInt64.toNat_ofNatLT

theorem lt_iff (x y : Float) : x < y ↔ x.toModel.unpack.lt y.toModel.unpack = true := decide_eq_true_iff

theorem unpack_zero : (0 : Float).toModel.unpack = .zero .positive := by rfl

theorem unpack_neg {x : Float} {s : Sign} {hp : 0 < topped m} (h₀ : 0 < m) (h : m < 2 ^ 53)
    (hx : x.toModel.unpack = .finite s (topped m) ((m.log2 : Int) - 52) hp) :
    (-x).toModel.unpack = .finite (-s) (topped m) ((m.log2 : Int) - 52) hp := by
  have hlog : m.log2 < 53 := (Nat.log2_lt h₀.ne').2 h
  change (Float.Model.pack x.toModel.unpack.neg).unpack = _
  rw [hx]
  exact unpack_pack (le_topped h₀ h) (topped_lt h₀ h) (by omega) (by omega) hp

/-- The integer comes back from its float. -/
def Precise (n : Int64) : Prop := wordOf (floatOf n) = n

/-- **Precise integers.**  An integer of at most 53 bits is held by a float. -/
theorem precise_of_lt {n : Int64} (h : n.toInt.natAbs < 2 ^ 53) : Precise n := by
  unfold Precise
  rcases Int.lt_trichotomy n.toInt 0 with hneg | hzero | hpos
  · have h₀ : 0 < n.toInt.natAbs := by omega
    have magnitude := unpack_toFloat h₀ h
    have negative := unpack_neg h₀ h magnitude
    have below : -(UInt64.ofNat n.toInt.natAbs).toFloat < 0 := by
      rw [lt_iff, negative, unpack_zero]
      rfl
    have back := toUInt64_of_unpack h₀ h (unpack_neg h₀ h negative)
    rw [floatOf, if_pos hneg, wordOf, if_pos below, Float.toUInt64, back,
      show -(n.toInt.natAbs : Int) = n.toInt by omega, clamp_toInt]
  · obtain rfl : n = 0 := Int64.toInt_inj.1 hzero
    decide +kernel
  · have h₀ : 0 < n.toInt.natAbs := by omega
    have magnitude := unpack_toFloat h₀ h
    have notBelow : ¬ (UInt64.ofNat n.toInt.natAbs).toFloat < 0 := by
      rw [lt_iff, magnitude, unpack_zero]
      exact Bool.false_ne_true
    rw [floatOf, if_neg (by omega), wordOf, if_neg notBelow, Float.toUInt64, toUInt64_of_unpack h₀ h magnitude,
      show (n.toInt.natAbs : Int) = n.toInt by omega, clamp_toInt]

end RunningLights.Number
