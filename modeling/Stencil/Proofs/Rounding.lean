import Stencil.Decimal.Numeral
import Stencil.Proofs.FloatingPointValues
import Stencil.Proofs.IntegerConversion

/-! # Rounding to floating point numbers

The floating point model computes a quotient to a number of digits and notes where the exact
quotient lies behind them. What is rounded from there is the nearest number,
`FloatingPoint.isNearest_roundWithAccuracy`, and so a numeral is read as the floating point number
that is nearest to it, however many digits it has, `Decimal.Numeral.isNearest_toFloat`.
-/

namespace Stencil

namespace FloatingPoint

open Float.Model Float.Model.UnpackedFloat
open Decimal (Dyadic)
open Decimal.Dyadic (infinityBits IsNearest IsBetween)

/-- Whether a rational number lies where the two bits behind a mantissa say: at the mantissa, at the
middle between it and the next one, or on one side of the middle. -/
def Approximates : ExtendedMantissa → ℚ → Prop
  | ⟨mantissa, false, false⟩, rational => rational = mantissa
  | ⟨mantissa, false, true⟩, rational => mantissa < rational ∧ 2 * rational < 2 * mantissa + 1
  | ⟨mantissa, true, false⟩, rational => 2 * rational = 2 * mantissa + 1
  | ⟨mantissa, true, true⟩, rational => 2 * mantissa + 1 < 2 * rational ∧ rational < mantissa + 1

private theorem approximates_shiftRightOne {extended : ExtendedMantissa} {rational : ℚ}
    (approximates : Approximates extended rational) :
    Approximates extended.shiftRightOne (rational / 2) := by
  obtain ⟨mantissa, roundBit, stickyBit⟩ := extended
  obtain ⟨half, rfl | rfl⟩ := Nat.even_or_odd' mantissa
  all_goals
    cases roundBit <;> cases stickyBit <;>
      simp [Approximates, ExtendedMantissa.shiftRightOne, Nat.add_div] at approximates ⊢
  all_goals first | linarith | constructor <;> linarith

private theorem approximates_shiftRight {extended : ExtendedMantissa} {rational : ℚ}
    (approximates : Approximates extended rational) (count : Nat) :
    Approximates (extended >>> count) (rational / 2 ^ count) := by
  induction count with
  | zero =>
    rw [pow_zero, div_one]
    exact approximates
  | succ count ih =>
    rw [pow_succ, ← div_div]
    exact approximates_shiftRightOne ih

section Rounded

variable {extended : ExtendedMantissa} {rational : ℚ}
  (approximates : Approximates extended rational)
include approximates

/-- What is rounded is not above the middle behind the rounded mantissa, and at the middle only if
that mantissa is even. -/
private theorem roundedMantissa_upper : 2 * rational < 2 * extended.roundedMantissa + 1 ∨
    2 * rational = 2 * extended.roundedMantissa + 1 ∧ Even extended.roundedMantissa := by
  obtain ⟨mantissa, roundBit, stickyBit⟩ := extended
  cases roundBit <;> cases stickyBit <;>
    simp only [Approximates, ExtendedMantissa.roundedMantissa, ExtendedMantissa.accuracy,
      Accuracy.roundToNearestEven] at approximates ⊢
  case false.false => exact .inl (by linarith)
  case false.true => exact .inl approximates.2
  case true.true => exact .inl (by push_cast; linarith)
  case true.false =>
    obtain ⟨half, rfl | rfl⟩ := Nat.even_or_odd' mantissa
    · exact .inr (by simpa using approximates)
    · exact .inl (by rw [Nat.mul_add_mod]; push_cast at approximates ⊢; linarith)

/-- It is not below the rounded mantissa if this is the mantissa itself, and else not below the
middle between the two. -/
private theorem roundedMantissa_lower :
    extended.roundedMantissa = extended.mantissa ∧ extended.mantissa ≤ rational ∨
      extended.roundedMantissa = extended.mantissa + 1 ∧
        (2 * extended.mantissa + 1 < 2 * rational ∨
          2 * extended.mantissa + 1 = 2 * rational ∧ Even extended.roundedMantissa) := by
  obtain ⟨mantissa, roundBit, stickyBit⟩ := extended
  cases roundBit <;> cases stickyBit <;>
    simp only [Approximates, ExtendedMantissa.roundedMantissa, ExtendedMantissa.accuracy,
      Accuracy.roundToNearestEven] at approximates ⊢
  case false.false => exact .inl ⟨trivial, approximates.ge⟩
  case false.true => exact .inl ⟨trivial, approximates.1.le⟩
  case true.true => exact .inr ⟨trivial, .inl approximates.1⟩
  case true.false =>
    obtain ⟨half, rfl | rfl⟩ := Nat.even_or_odd' mantissa
    · exact .inl ⟨by omega, by linarith⟩
    · exact .inr ⟨by omega, .inr ⟨approximates.symm, ⟨half + 1, by omega⟩⟩⟩

end Rounded

@[simp] theorem mantissa_ofMantissaAndAccuracy (mantissa : Nat) (accuracy : Accuracy) :
    (ExtendedMantissa.ofMantissaAndAccuracy mantissa accuracy).mantissa = mantissa := by
  cases accuracy with
  | exact => rfl
  | inexact order => cases order <;> rfl

/-- A rounded mantissa of at most 53 digits, and the power of two behind it, have the bits of the
number nearest to what was rounded. -/
private theorem isBetween_roundedMantissa {extended : ExtendedMantissa} {exponent : Nat}
    {rational : ℚ} (approximates : Approximates extended (rational / 2 ^ ((exponent : Int) - 1074)))
    (upper : extended.mantissa < 2 ^ 53) (lower : 2 ^ 52 ≤ extended.mantissa ∨ exponent = 0) :
    IsBetween (exponent * 2 ^ 52 + extended.roundedMantissa) rational := by
  obtain ⟨unit, unitEq⟩ : ∃ unit : ℚ, 2 ^ ((exponent : Int) - 1074) = unit := ⟨_, rfl⟩
  have positive : 0 < unit := by
    rw [← unitEq]
    positivity
  rw [unitEq] at approximates
  have scaled : rational = rational / unit * unit := (div_mul_cancel₀ _ positive.ne').symm
  generalize rational / unit = units at approximates scaled
  subst scaled
  have bounds := roundedMantissa_bounds extended
  have value (significand : Nat) (small : significand ≤ 2 ^ 53)
      (large : 2 ^ 52 ≤ significand ∨ exponent = 0) :
      (Dyadic.ofBits (exponent * 2 ^ 52 + significand)).value = significand * unit := by
    rw [Dyadic.value_ofBits small large, unitEq]
  have here := value extended.roundedMantissa (by omega) (lower.imp_left (le_trans · bounds.1))
  have even (is : Even extended.roundedMantissa) :
      Even (exponent * 2 ^ 52 + extended.roundedMantissa) :=
    (Nat.even_pow.mpr ⟨by decide, by decide⟩).mul_left exponent |>.add is
  refine ⟨fun smaller next => ?_, ?_⟩
  · rw [here]
    rcases roundedMantissa_lower approximates with ⟨same, above⟩ | ⟨up, above⟩
    · have less : (Dyadic.ofBits smaller).value < extended.roundedMantissa * unit := by
        rw [← here, ← next]
        exact Dyadic.value_strictMono (Nat.lt_succ_self smaller)
      rw [← same] at above
      have := mul_le_mul_of_nonneg_right above positive.le
      exact .inl (by linarith)
    · obtain rfl : smaller = exponent * 2 ^ 52 + extended.mantissa := by omega
      rw [value extended.mantissa upper.le lower, up]
      push_cast
      rcases above with strict | ⟨middle, is⟩
      · have := mul_lt_mul_of_pos_right strict positive
        exact .inl (by linarith)
      · exact .inr ⟨by linear_combination unit * middle, up ▸ even is⟩
  · have next : (extended.roundedMantissa + 1) * unit ≤
        (Dyadic.ofBits (exponent * 2 ^ 52 + extended.roundedMantissa + 1)).value := by
      rw [← unitEq]
      exact Dyadic.le_value_ofBits_succ (by omega) (lower.imp_left (le_trans · bounds.1))
    rw [here]
    rcases roundedMantissa_upper approximates with strict | ⟨middle, is⟩
    · have := mul_lt_mul_of_pos_right strict positive
      exact .inl (by linarith)
    · have scaled : 2 * (units * unit) = (2 * extended.roundedMantissa + 1) * unit := by
        rw [← middle, mul_assoc]
      rcases lt_or_eq_of_le next with strict | same
      · exact .inl (by linarith)
      · exact .inr ⟨by linarith, even is⟩

section Shift

variable {mantissa : Nat} {exponent : Int}

private theorem targetExponent_eq (mantissa : Nat) (exponent : Int) :
    Format.binary64.targetExponent (totalExponent mantissa exponent) =
      max (mantissa.log2 + exponent - 52) (-1074) := by
  simp only [Format.targetExponent, totalExponent, Format.mantissaBits, Format.minExponent]
  omega

private theorem shiftToTargetExponent_of_target (accuracy : Accuracy) {count : Nat}
    (target : max (mantissa.log2 + exponent - 52) (-1074) = exponent + count) :
    shiftToTargetExponent Format.binary64 mantissa exponent accuracy =
      (ExtendedMantissa.ofMantissaAndAccuracy mantissa accuracy >>> count, exponent + count) := by
  have shift : (exponent + count - exponent).toNat = count := by omega
  simp only [shiftToTargetExponent, targetExponent_eq, target, shiftToExponent, shift]

end Shift

/-- A mantissa that rounding made one digit too long is shifted, which keeps its bits. -/
private theorem shiftToTargetExponent_settled {mantissa exponent : Nat} (upper : mantissa ≤ 2 ^ 53)
    (lower : 2 ^ 52 ≤ mantissa ∨ exponent = 0) :
    ∃ (settled : ExtendedMantissa) (raised : Nat),
      shiftToTargetExponent Format.binary64 mantissa ((exponent : Int) - 1074) .exact =
          (settled, (raised : Int) - 1074) ∧
        raised * 2 ^ 52 + settled.mantissa = exponent * 2 ^ 52 + mantissa ∧
        settled.mantissa < 2 ^ 53 ∧ (2 ^ 52 ≤ settled.mantissa ∨ raised = 0) := by
  rcases Nat.lt_or_eq_of_le upper with short | rfl
  · refine ⟨.ofMantissaAndAccuracy mantissa .exact, exponent, ?_, rfl, short, lower⟩
    have target : max (mantissa.log2 + ((exponent : Int) - 1074) - 52) (-1074) =
        (exponent : Int) - 1074 + (0 : Nat) := by
      rcases Nat.lt_or_ge mantissa (2 ^ 52) with small | large
      · obtain rfl := lower.resolve_left small.not_ge
        have : mantissa.log2 ≤ 51 := Decimal.log2_le_of_lt small
        omega
      · have : mantissa.log2 = 52 := (Nat.log2_eq_iff (by omega)).mpr ⟨large, short⟩
        omega
    rw [shiftToTargetExponent_of_target _ target, Int.natCast_zero, Int.add_zero]
    rfl
  · have target : max ((2 ^ 53 : Nat).log2 + ((exponent : Int) - 1074) - 52) (-1074) =
        (exponent : Int) - 1074 + (1 : Nat) := by
      rw [Nat.log2_two_pow]
      omega
    refine ⟨ExtendedMantissa.ofMantissaAndAccuracy (2 ^ 53) .exact >>> 1, exponent + 1, ?_, ?_⟩
    · rw [shiftToTargetExponent_of_target _ target, sub_add_eq_add_sub]
      rfl
    · rw [mantissa_shiftRight, mantissa_ofMantissaAndAccuracy]
      omega

section Packing

private theorem toNat_packComponents (field : BitVec 11) (fraction : BitVec 52) :
    (packComponents Format.binary64 .positive field fraction).toNat =
      field.toNat * 2 ^ 52 + fraction.toNat := by
  change (0#1 ++ field ++ fraction).toNat = _
  rw [BitVec.toNat_append, ← Nat.shiftLeft_add_eq_or_of_lt fraction.isLt, Nat.shiftLeft_eq,
    BitVec.toNat_append]
  simp

/-- The bits of a packed number, or those of infinity if its exponent is too large. -/
private theorem toNat_pack {mantissa exponent : Nat} {filled : 0 < mantissa}
    (upper : mantissa < 2 ^ 53) (lower : 2 ^ 52 ≤ mantissa ∨ exponent = 0) :
    (Float.Model.pack (.finite .positive mantissa ((exponent : Int) - 1074) filled)).toBits.toNat =
      min (exponent * 2 ^ 52 + mantissa) infinityBits := by
  change (UnpackedFloat.pack Format.binary64
    (.finite .positive mantissa ((exponent : Int) - 1074) filled)).toNat = _
  have field : ((exponent : Int) - 1074 + (Format.binary64.exponentBias : Int) + (52 : Nat)).toNat =
      exponent + 1 := by
    change ((exponent : Int) - 1074 + 1023 + 52).toNat = exponent + 1
    omega
  rw [UnpackedFloat.pack.eq_def]
  simp only [field, Format.mantissaBits]
  split
  next large =>
    change (packComponents Format.binary64 .positive (-1#11) 0#52).toNat = _
    rw [toNat_packComponents]
    change 2047 * 2 ^ 52 + 0 = min _ (2047 * 2 ^ 52)
    have : 2 ^ 11 ≤ exponent + 1 + 1 := large
    omega
  next small =>
    have : exponent + 1 + 1 < 2 ^ 11 := Nat.lt_of_not_ge small
    rw [infinityBits]
    split
    next length =>
      have large : 2 ^ 52 ≤ mantissa := (Nat.le_log2 filled.ne').mp (by omega)
      rw [toNat_packComponents, BitVec.toNat_ofNat, BitVec.toNat_ofNat]
      omega
    next length =>
      have : ¬2 ^ 52 ≤ mantissa := fun large =>
        length ((congrArg (· + 1) ((Nat.log2_eq_iff filled.ne').mpr ⟨large, upper⟩)).trans rfl)
      rw [toNat_packComponents, BitVec.toNat_ofNat, BitVec.toNat_ofNat]
      omega

end Packing

section Division

/-- At the target exponent a mantissa has at most 53 digits, and no fewer unless that is the least
exponent. -/
private theorem bounds_of_target {mantissa count raised : Nat} {exponent : Int}
    (precise : exponent ≤ -1074 ∨ 52 ≤ mantissa.log2)
    (target : max (mantissa.log2 + exponent - 52) (-1074) = exponent + count)
    (raisedEq : exponent + count = (raised : Int) - 1074) :
    mantissa / 2 ^ count < 2 ^ 53 ∧ (2 ^ 52 ≤ mantissa / 2 ^ count ∨ raised = 0) := by
  constructor
  · rw [Nat.div_lt_iff_lt_mul (Nat.two_pow_pos count), ← Nat.pow_add]
    exact Nat.lt_log2_self.trans_le (Nat.pow_le_pow_right (by decide) (by omega))
  · by_cases least : raised = 0
    · exact .inr least
    have length : mantissa.log2 = 52 + count := by omega
    have filled : mantissa ≠ 0 := by
      rintro rfl
      rw [Nat.log2_zero] at length
      omega
    refine .inl ?_
    rw [Nat.le_div_iff_mul_le (Nat.two_pow_pos count), ← Nat.pow_add, ← length]
    exact Nat.log2_self_le filled

/-- What is known to 53 digits, or down to the least exponent, is rounded to the nearest number. -/
theorem isNearest_roundWithAccuracy {mantissa : Nat} {exponent : Int} {accuracy : Accuracy}
    {rational : ℚ}
    (approximates : Approximates (ExtendedMantissa.ofMantissaAndAccuracy mantissa accuracy)
      (rational / 2 ^ exponent))
    (precise : exponent ≤ -1074 ∨ 52 ≤ mantissa.log2) :
    IsNearest (Float.Model.pack
      (roundWithAccuracy Format.binary64 .positive mantissa exponent accuracy)).toBits.toNat
      rational := by
  obtain ⟨count, target⟩ : ∃ count : Nat,
      max (mantissa.log2 + exponent - 52) (-1074) = exponent + count :=
    ⟨(max (mantissa.log2 + exponent - 52) (-1074) - exponent).toNat, by omega⟩
  obtain ⟨raised, raisedEq⟩ : ∃ raised : Nat, exponent + count = (raised : Int) - 1074 :=
    ⟨(exponent + count + 1074).toNat, by omega⟩
  have cut := approximates_shiftRight approximates count
  rw [div_div, ← zpow_natCast, ← zpow_add₀ (by norm_num), raisedEq] at cut
  have cutMantissa :
      (ExtendedMantissa.ofMantissaAndAccuracy mantissa accuracy >>> count).mantissa =
        mantissa / 2 ^ count := by
    rw [mantissa_shiftRight, mantissa_ofMantissaAndAccuracy]
  have shifted := shiftToTargetExponent_of_target accuracy target
  rw [raisedEq] at shifted
  generalize ExtendedMantissa.ofMantissaAndAccuracy mantissa accuracy >>> count = extended
    at cut cutMantissa shifted
  obtain ⟨upper, lower⟩ := bounds_of_target precise target raisedEq
  rw [← cutMantissa] at upper lower
  have bounds := roundedMantissa_bounds extended
  obtain ⟨settled, final, settledEq, sameBits, short, normal⟩ := shiftToTargetExponent_settled
    (show extended.roundedMantissa ≤ 2 ^ 53 by omega) (lower.imp_left (le_trans · bounds.1))
  have nearest := Dyadic.isNearest_of_isBetween (isBetween_roundedMantissa cut upper lower)
  rw [← sameBits] at nearest
  simp only [roundWithAccuracy, shifted, settledEq]
  split
  next empty =>
    have : final = 0 := normal.resolve_left (by omega)
    rw [empty, this] at nearest
    exact nearest
  next filled =>
    rwa [toNat_pack short normal]

private theorem approximates_accuracyOfFraction (numerator : Nat) {denominator : Nat}
    (positive : 0 < denominator) :
    Approximates (ExtendedMantissa.ofMantissaAndAccuracy (numerator / denominator)
      (accuracyOfFraction (numerator % denominator) denominator)) (numerator / denominator) := by
  have scale : (0 : ℚ) < denominator := by exact_mod_cast positive
  have split : (numerator : ℚ) / denominator = (numerator / denominator : Nat) +
      (numerator % denominator : Nat) / denominator := by
    have total : (denominator * (numerator / denominator : Nat) +
        (numerator % denominator : Nat) : ℚ) = numerator := by
      exact_mod_cast Nat.div_add_mod numerator denominator
    field_simp
    linarith
  have proper : numerator % denominator < denominator := Nat.mod_lt _ positive
  generalize numerator / denominator = quotient at split
  generalize numerator % denominator = remainder at split proper
  have proper : (remainder : ℚ) / denominator < 1 :=
    (div_lt_one scale).mpr (by exact_mod_cast proper)
  rw [split, accuracyOfFraction]
  split
  next none =>
    simp [ExtendedMantissa.ofMantissaAndAccuracy, Approximates, none]
  next some =>
    have filled : (0 : ℚ) < remainder / denominator := by positivity
    rcases order : compare (2 * remainder) denominator
    · have below : (2 * remainder / denominator : ℚ) < 1 :=
        (div_lt_one scale).mpr (by exact_mod_cast Nat.compare_eq_lt.mp order)
      rw [mul_div_assoc] at below
      constructor <;> linarith
    · have middle : (2 * remainder / denominator : ℚ) = 1 :=
        (div_eq_one_iff_eq scale.ne').mpr (by exact_mod_cast Nat.compare_eq_eq.mp order)
      rw [mul_div_assoc] at middle
      change 2 * _ = 2 * _ + 1
      linarith
    · have above : 1 < (2 * remainder / denominator : ℚ) :=
        (one_lt_div scale).mpr (by exact_mod_cast Nat.compare_eq_gt.mp order)
      rw [mul_div_assoc] at above
      constructor <;> linarith

/-- The quotient of two positive numbers is rounded to the nearest number. -/
theorem isNearest_div {m n : Nat} {e f : Int} {mFilled : 0 < m} {nFilled : 0 < n} :
    IsNearest (Float.Model.pack (UnpackedFloat.div Format.binary64
      (.finite .positive m e mFilled) (.finite .positive n f nFilled))).toBits.toNat
      (m * 2 ^ e / (n * 2 ^ f)) := by
  simp only [UnpackedFloat.div, divCore]
  generalize targetEq : min (e - f) (Format.binary64.targetExponent
    (totalExponent m e - totalExponent n f)) = target
  obtain ⟨count, countEq⟩ : ∃ count : Nat, e - f - target = count :=
    ⟨(e - f - target).toNat, by omega⟩
  rw [countEq, Int.toNat_natCast, Nat.shiftLeft_eq]
  refine isNearest_roundWithAccuracy ?_ ?_
  · have exponents : e = count + f + target := by omega
    have scaled : (m * 2 ^ e / (n * 2 ^ f) / 2 ^ target : ℚ) = (m * 2 ^ count : Nat) / n := by
      rw [exponents, zpow_add₀ (by norm_num), zpow_add₀ (by norm_num)]
      push_cast
      field_simp
      rw [zpow_natCast]
    rw [scaled]
    exact approximates_accuracyOfFraction (m * 2 ^ count) nFilled
  · -- Unless the exponent is the least one, the quotient has been given 53 digits.
    by_cases least : target ≤ -1074
    · exact .inl least
    have enough : n.log2 + 53 ≤ m.log2 + count := by
      simp only [Format.targetExponent, totalExponent, Format.mantissaBits,
        Format.minExponent] at targetEq
      omega
    have quotient : 2 ^ 52 ≤ m * 2 ^ count / n := by
      rw [Nat.le_div_iff_mul_le nFilled]
      calc 2 ^ 52 * n ≤ 2 ^ 52 * 2 ^ (n.log2 + 1) := Nat.mul_le_mul_left _ Nat.lt_log2_self.le
        _ = 2 ^ (n.log2 + 53) := by rw [← Nat.pow_add, Nat.add_left_comm]
        _ ≤ 2 ^ (m.log2 + count) := Nat.pow_le_pow_right (by decide) enough
        _ = 2 ^ m.log2 * 2 ^ count := Nat.pow_add ..
        _ ≤ m * 2 ^ count := Nat.mul_le_mul_right _ (Nat.log2_self_le mFilled.ne')
    exact .inr ((Nat.le_log2 (by omega)).mpr quotient)

/-- The product of two positive numbers is rounded to the nearest number if it is known to 53
digits. -/
theorem isNearest_mul {m n : Nat} {e f : Int} {mFilled : 0 < m} {nFilled : 0 < n}
    (precise : 52 ≤ (m * n).log2) :
    IsNearest (Float.Model.pack (UnpackedFloat.mul Format.binary64
      (.finite .positive m e mFilled) (.finite .positive n f nFilled))).toBits.toNat
      (m * n * 2 ^ (e + f)) := by
  simp only [UnpackedFloat.mul]
  refine isNearest_roundWithAccuracy ?_ (.inr precise)
  rw [mul_div_cancel_right₀ _ (by positivity), ← Nat.cast_mul]
  rfl

private theorem isNearest_mul_one {n count : Nat} {filled : 0 < n <<< count}
    (precise : 52 ≤ count) :
    IsNearest (Float.Model.pack (UnpackedFloat.mul Format.binary64
      (.finite .positive (n <<< count) (-count) filled)
      (.finite .positive 1 0 Nat.one_pos))).toBits.toNat n := by
  have nonzero : n ≠ 0 := by
    rintro rfl
    rw [Nat.zero_shiftLeft] at filled
    exact filled.false
  have long : 52 ≤ (n <<< count * 1).log2 := by
    rw [Nat.mul_one, log2_shiftLeft nonzero]
    exact precise.trans (Nat.le_add_left _ _)
  have same : ((n <<< count : Nat) * (1 : Nat) * 2 ^ (-(count : Int) + 0) : ℚ) = n := by
    rw [Nat.shiftLeft_eq, add_zero, zpow_neg, zpow_natCast]
    push_cast
    field_simp
  rw [← same]
  exact isNearest_mul long

end Division

section DecimalNumbers

/-- A number below the middle between zero and the least number is rounded to zero. -/
theorem isNearest_zero {rational : ℚ} (small : rational < 2 ^ (-1075 : Int)) :
    IsNearest 0 rational := by
  have between : IsBetween 0 rational := by
    refine ⟨fun smaller next => absurd next (Nat.succ_ne_zero smaller), .inl ?_⟩
    have least : (Dyadic.ofBits (0 + 1)).value = 2 * 2 ^ (-1075 : Int) := by
      rw [Dyadic.ofBits_subnormal (by decide), Dyadic.value, ← zpow_one_add₀ (by norm_num)]
      norm_num
    rw [least]
    have := (Dyadic.ofBits 0).value_nonneg
    linarith
  exact Dyadic.isNearest_of_isBetween between

/-- Whether a floating point number is a power of ten. -/
def isPowerOfTen (places : Nat) : UnpackedFloat → Bool
  | .finite .positive mantissa exponent _ =>
    mantissa * 2 ^ exponent.toNat == 10 ^ places * 2 ^ (-exponent).toNat
  | _ => false

private theorem isPowerOfTen_table : ∀ places : Fin 23, isPowerOfTen places
    (Float.exactlyRepresentablePowersOfTen[places]).toModel.unpack = true := by
  decide +kernel

private theorem exists_of_isPowerOfTen {places : Nat} {number : UnpackedFloat}
    (isPower : isPowerOfTen places number = true) : ∃ mantissa exponent filled,
      number = .finite .positive mantissa exponent filled ∧
        (mantissa * 2 ^ exponent : ℚ) = 10 ^ places := by
  rw [isPowerOfTen.eq_def] at isPower
  split at isPower
  · next mantissa exponent filled =>
    refine ⟨mantissa, exponent, filled, rfl, ?_⟩
    have same : (mantissa * 2 ^ exponent.toNat : ℚ) = 10 ^ places * 2 ^ (-exponent).toNat := by
      exact_mod_cast beq_iff_eq.mp isPower
    rcases Int.le_total 0 exponent with up | down
    · obtain ⟨count, rfl⟩ := Int.eq_ofNat_of_zero_le up
      simpa using same
    · obtain ⟨count, rfl⟩ := Int.exists_eq_neg_ofNat down
      rw [zpow_neg, ← div_eq_mul_inv, div_eq_iff (by positivity)]
      simpa using same
  · cases isPower

/-- The conversion for numbers of many digits. -/
private theorem isNearest_ofScientific (coefficient places : Nat) :
    IsNearest (Float.Model.pack (UnpackedFloat.ofScientific Format.binary64 coefficient
      (.negOfNat places))).toBits.toNat (coefficient / 10 ^ places) := by
  have exponent : Int.negOfNat places = -(places : Int) := by cases places <;> rfl
  rw [exponent, UnpackedFloat.ofScientific]
  split
  next empty =>
    subst empty
    rw [Nat.cast_zero, zero_div]
    exact isNearest_zero (by positivity)
  next filled =>
  rw [if_neg (not_lt_of_ge (le_trans (by omega) (by positivity : (0 : Int) ≤ _)))]
  split
  next tiny =>
    refine isNearest_zero ?_
    have places_large : coefficient.log2 + 1 + 1075 ≤ places := by
      have : -(places : Int) < -(2048 + coefficient.log2) := tiny
      omega
    have upper : (coefficient : ℚ) < 2 ^ (coefficient.log2 + 1) := by
      exact_mod_cast Nat.lt_log2_self
    calc (coefficient / 10 ^ places : ℚ) < 2 ^ (coefficient.log2 + 1) / 10 ^ places := by gcongr
      _ ≤ 2 ^ (coefficient.log2 + 1) / 2 ^ places := by gcongr; norm_num
      _ ≤ 2 ^ (coefficient.log2 + 1) / 2 ^ (coefficient.log2 + 1 + 1075) := by gcongr; norm_num
      _ = 2 ^ (-1075 : Int) := by
        rw [pow_add _ _ 1075, div_mul_cancel_left₀ (by positivity), zpow_neg]
        rfl
  split
  next whole =>
    obtain rfl : places = 0 := by omega
    rw [pow_zero, div_one]
    exact isNearest_mul_one (by decide)
  next =>
    have nearest := @isNearest_div coefficient (10 ^ places) 0 0 (Nat.pos_of_ne_zero filled)
      (by positivity)
    simpa using nearest

/-- The conversion for numbers of few digits, by a division of numbers that are exact. -/
private theorem isNearest_div_powerOfTen {coefficient places : Nat} (small : coefficient < 2 ^ 53)
    (inTable : places < 23) :
    IsNearest (coefficient.toUInt64.toFloat /
      Float.exactlyRepresentablePowersOfTen[places]).toBits.toNat
      (coefficient / 10 ^ places) := by
  obtain ⟨mantissa, exponent, filled, power, value⟩ :=
    exists_of_isPowerOfTen (isPowerOfTen_table ⟨places, inTable⟩)
  change IsNearest (Float.Model.pack (UnpackedFloat.div Format.binary64
    coefficient.toUInt64.toFloat.toModel.unpack
    (Float.exactlyRepresentablePowersOfTen[places]).toModel.unpack)).toBits.toNat _
  change (Float.exactlyRepresentablePowersOfTen[places]).toModel.unpack = _ at power
  change (mantissa * 2 ^ exponent : ℚ) = 10 ^ places at value
  rw [power, ← value]
  rcases Nat.eq_zero_or_pos coefficient with rfl | positive
  · rw [Nat.cast_zero, zero_div]
    exact isNearest_zero (by positivity)
  · have front : 0 < coefficient * 2 ^ (52 - coefficient.log2) := by positivity
    have exact : (coefficient : ℚ) = (coefficient * 2 ^ (52 - coefficient.log2) : Nat) *
        2 ^ ((coefficient.log2 : Int) - 52) := by
      obtain ⟨short, -⟩ := log2_digits_in_front small front
      have cancel : (coefficient.log2 : Int) - 52 = -((52 - coefficient.log2 : Nat) : Int) := by
        omega
      rw [cancel, zpow_neg, zpow_natCast]
      push_cast
      field_simp
    rw [floatOfWord_exact small front, exact]
    exact isNearest_div

end DecimalNumbers

end FloatingPoint

namespace Decimal

open FloatingPoint Float.Model Float.Model.UnpackedFloat

/-- The number as a rational one. -/
def Numeral.value (numeral : Numeral) : ℚ :=
  numeral.coefficient / 10 ^ numeral.places.getD 0

/-- A numeral is read as the floating point number nearest to it. -/
theorem Numeral.isNearest_toFloat (numeral : Numeral) :
    Dyadic.IsNearest numeral.toFloat.toBits.toNat numeral.value := by
  obtain ⟨coefficient, places⟩ := numeral
  rw [toFloat, value]
  generalize places.getD 0 = places
  change Dyadic.IsNearest (Float.ofScientific coefficient true places).toBits.toNat
    (coefficient / 10 ^ places)
  rw [Float.ofScientific]
  split
  next fits =>
    exact isNearest_div_powerOfTen fits.1 (Nat.lt_succ_of_le fits.2)
  next => exact isNearest_ofScientific coefficient places

end Decimal

end Stencil
