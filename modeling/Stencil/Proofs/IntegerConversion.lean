import Mathlib
import Stencil.Value.Comparison

/-! # Integers as floating point numbers

An integer of at most 53 digits is converted to a floating point number without loss, and a longer
one to a number that no shorter integer is converted to, `FloatingPoint.represents_floatOfInt`. So
different integers are equal as floating point numbers only if both are long,
`Number.eq_or_large_of_toFloat_beq`, and only zero equals zero, `Number.toFloat_int_beq_zero`. The
conversion is followed through the rounding and the packing of the floating point model, where
numbers that are normal or infinite, and not too small, stay so.
-/

namespace Stencil

namespace FloatingPoint

open Float.Model Float.Model.UnpackedFloat

/-- An infinite number, or a normal one that has at least the given exponent. -/
inductive IsAwayFromZero (low : Int) : UnpackedFloat → Prop
  | infinity (sign : Sign) : IsAwayFromZero low (.infinity sign)
  | finite (sign : Sign) {mantissa : Nat} {exponent : Int} (filled : 0 < mantissa)
    (length : mantissa.log2 = 52) (above : low ≤ exponent) :
    IsAwayFromZero low (.finite sign mantissa exponent filled)

variable {low : Int}

private theorem IsAwayFromZero.neg {value : UnpackedFloat} (away : IsAwayFromZero low value) :
    IsAwayFromZero low value.neg := by
  cases away with
  | infinity sign => exact .infinity _
  | finite sign filled length above => exact .finite _ filled length above

section Rounding

@[simp] theorem mantissa_shiftRight (extended : ExtendedMantissa) (count : Nat) :
    (extended >>> count).mantissa = extended.mantissa / 2 ^ count := by
  induction count with
  | zero =>
    rw [Nat.pow_zero, Nat.div_one]
    rfl
  | succ count ih =>
    change (extended >>> count).mantissa / 2 = _
    rw [ih, Nat.div_div_eq_div_mul, ← Nat.pow_succ]

theorem roundedMantissa_bounds (extended : ExtendedMantissa) :
    extended.mantissa ≤ extended.roundedMantissa ∧
      extended.roundedMantissa ≤ extended.mantissa + 1 := by
  obtain ⟨mantissa, roundBit, stickyBit⟩ := extended
  cases roundBit <;> cases stickyBit <;>
    simp only [ExtendedMantissa.roundedMantissa, ExtendedMantissa.accuracy,
      Accuracy.roundToNearestEven] <;> omega

theorem log2_shiftLeft {mantissa : Nat} (filled : mantissa ≠ 0) (count : Nat) :
    (mantissa <<< count).log2 = mantissa.log2 + count := by
  have bounds := (Nat.log2_eq_iff filled).mp rfl
  have power := Nat.two_pow_pos count
  rw [Nat.shiftLeft_eq, Nat.log2_eq_iff (Nat.mul_ne_zero filled (Nat.ne_zero_of_lt power)),
    Nat.pow_add, Nat.add_right_comm, Nat.pow_add _ _ count]
  exact ⟨Nat.mul_le_mul_right _ bounds.1, Nat.mul_lt_mul_of_pos_right bounds.2 power⟩

/-- A mantissa of more than 53 digits is cut to 53. -/
private theorem shiftToTargetExponent_eq {mantissa : Nat} {exponent : Int} {count : Nat}
    (length : mantissa.log2 = 52 + count) (normal : -1074 ≤ exponent + count) :
    shiftToTargetExponent Format.binary64 mantissa exponent .exact =
      (ExtendedMantissa.ofMantissaAndAccuracy mantissa .exact >>> count, exponent + count) := by
  have target : Format.binary64.targetExponent (totalExponent mantissa exponent) =
      exponent + count := by
    simp only [Format.targetExponent, totalExponent, Format.mantissaBits, Format.minExponent,
      length]
    omega
  have shift : (exponent + count - exponent).toNat = count := by omega
  simp only [shiftToTargetExponent, target, shiftToExponent, shift]

/-- Rounding up may make a mantissa one digit too long, which a second shift repairs. -/
private theorem shiftToTargetExponent_rounded {mantissa : Nat} {exponent : Int}
    (lower : 2 ^ 52 ≤ mantissa) (upper : mantissa ≤ 2 ^ 53) (normal : -1074 ≤ exponent) :
    (shiftToTargetExponent Format.binary64 mantissa exponent .exact).1.mantissa.log2 = 52 ∧
      exponent ≤ (shiftToTargetExponent Format.binary64 mantissa exponent .exact).2 := by
  rcases Nat.lt_or_eq_of_le upper with short | rfl
  · have length : mantissa.log2 = 52 + 0 := (Nat.log2_eq_iff (by omega)).mpr ⟨lower, short⟩
    rw [shiftToTargetExponent_eq length (by omega), mantissa_shiftRight, Nat.pow_zero, Nat.div_one]
    exact ⟨length, by omega⟩
  · have length : (2 ^ 53).log2 = 52 + 1 := Nat.log2_two_pow
    rw [shiftToTargetExponent_eq length (by omega), mantissa_shiftRight]
    exact ⟨Nat.log2_two_pow (n := 52), by omega⟩

private theorem isAwayFromZero_roundWithAccuracy {sign : Sign} {mantissa : Nat} {exponent : Int}
    {count : Nat} (length : mantissa.log2 = 52 + count) (above : low ≤ exponent + count)
    (normal : -1074 ≤ low) :
    IsAwayFromZero low (roundWithAccuracy Format.binary64 sign mantissa exponent .exact) := by
  have filled : mantissa ≠ 0 := by
    rintro rfl
    have : Nat.log2 0 = 0 := rfl
    omega
  have shifted := shiftToTargetExponent_eq length (Int.le_trans normal above)
  generalize cutEq : ExtendedMantissa.ofMantissaAndAccuracy mantissa .exact >>> count = cut
    at shifted
  have cutMantissa : cut.mantissa = mantissa / 2 ^ count := by
    rw [← cutEq, mantissa_shiftRight]
    rfl
  have cutBounds : 2 ^ 52 ≤ cut.mantissa ∧ cut.mantissa < 2 ^ 53 := by
    have bounds := (Nat.log2_eq_iff filled).mp length
    rwa [cutMantissa, Nat.le_div_iff_mul_le (Nat.two_pow_pos count),
      Nat.div_lt_iff_lt_mul (Nat.two_pow_pos count), ← Nat.pow_add, ← Nat.pow_add,
      ← Nat.add_right_comm 52 count 1]
  have rounded := roundedMantissa_bounds cut
  have lower : 2 ^ 52 ≤ cut.roundedMantissa := by omega
  have upper : cut.roundedMantissa ≤ 2 ^ 53 := by omega
  obtain ⟨finalLength, finalAbove⟩ :=
    shiftToTargetExponent_rounded lower upper (Int.le_trans normal above)
  simp only [roundWithAccuracy, shifted]
  split
  · next empty =>
    rw [empty] at finalLength
    cases finalLength
  · exact .finite sign _ finalLength (Int.le_trans above finalAbove)

end Rounding

/-- Nothing is lost when only zeros are cut off. -/
private theorem shiftRight_exact (mantissa count : Nat) :
    ExtendedMantissa.ofMantissaAndAccuracy (mantissa * 2 ^ count) .exact >>> count =
      ExtendedMantissa.ofMantissaAndAccuracy mantissa .exact := by
  induction count generalizing mantissa with
  | zero =>
    rw [Nat.pow_zero, Nat.mul_one]
    rfl
  | succ count ih =>
    change ExtendedMantissa.shiftRightOne
      (ExtendedMantissa.ofMantissaAndAccuracy (mantissa * 2 ^ (count + 1)) .exact >>> count) = _
    rw [Nat.pow_succ', ← Nat.mul_assoc, ih]
    simp [ExtendedMantissa.shiftRightOne, ExtendedMantissa.ofMantissaAndAccuracy]

section Exact

variable {sign : Sign} {mantissa : Nat} {exponent : Int}

private theorem shiftToTargetExponent_exact (length : mantissa.log2 = 52) (count : Nat)
    (normal : -1074 ≤ exponent + count) :
    shiftToTargetExponent Format.binary64 (mantissa * 2 ^ count) exponent .exact =
      (ExtendedMantissa.ofMantissaAndAccuracy mantissa .exact, exponent + count) := by
  have nonzero : mantissa ≠ 0 := by
    rintro rfl
    cases length
  have longer : (mantissa * 2 ^ count).log2 = 52 + count := by
    rw [← Nat.shiftLeft_eq, log2_shiftLeft nonzero, length]
  rw [shiftToTargetExponent_eq longer normal, shiftRight_exact]

/-- Zeros behind the 53 digits of a mantissa only add to the exponent. -/
private theorem roundWithAccuracy_exact {filled : 0 < mantissa} (length : mantissa.log2 = 52)
    (count : Nat) (normal : -1074 ≤ exponent + count) :
    roundWithAccuracy Format.binary64 sign (mantissa * 2 ^ count) exponent .exact =
      .finite sign mantissa (exponent + count) filled := by
  have again : shiftToTargetExponent Format.binary64 mantissa (exponent + count) .exact =
      (ExtendedMantissa.ofMantissaAndAccuracy mantissa .exact, exponent + count) := by
    have shifted := @shiftToTargetExponent_exact mantissa (exponent + count) length 0 (by omega)
    rwa [Nat.pow_zero, Nat.mul_one, Int.natCast_zero, Int.add_zero] at shifted
  have rounded :
      (ExtendedMantissa.ofMantissaAndAccuracy mantissa .exact).roundedMantissa = mantissa := rfl
  simp only [roundWithAccuracy, shiftToTargetExponent_exact length count normal, rounded, again]
  exact dif_neg (Nat.ne_zero_of_lt filled)

end Exact

section Packing

/-- The exponent field of a normal number is neither that of a subnormal number nor that of an
infinite one. -/
private theorem exponentField_of_normal {biased : Nat} (positive : 0 < biased)
    (small : biased < 2047) :
    (BitVec.ofNat 11 biased).toNat = biased ∧ BitVec.ofNat 11 biased ≠ -1#11 ∧
      BitVec.ofNat 11 biased ≠ 0#11 := by
  have value : (BitVec.ofNat 11 biased).toNat = biased := by
    rw [BitVec.toNat_ofNat]
    omega
  refine ⟨value, fun maximal => ?_, fun minimal => ?_⟩
  · rw [maximal] at value
    exact small.ne value.symm
  · rw [minimal] at value
    exact positive.ne value

/-- The first digit of a mantissa is not stored. -/
private theorem mantissaField_of_normal {mantissa : Nat} (length : mantissa.log2 = 52) :
    (1#1 ++ BitVec.ofNat 52 mantissa).toNat = mantissa := by
  have nonzero : mantissa ≠ 0 := by
    rintro rfl
    cases length
  have bounds := (Nat.log2_eq_iff nonzero).mp length
  rw [BitVec.toNat_append, ← Nat.shiftLeft_add_eq_or_of_lt (BitVec.isLt _),
    BitVec.toNat_ofNat mantissa]
  change 2 ^ 52 + mantissa % 2 ^ 52 = mantissa
  omega

/-- A normal number whose exponent is in range is the same after packing. -/
theorem unpack_pack_finite {sign : Sign} {mantissa : Nat} {exponent : Int} {filled : 0 < mantissa}
    (length : mantissa.log2 = 52) (lower : -1074 ≤ exponent) (upper : exponent ≤ 971) :
    (Float.Model.pack (.finite sign mantissa exponent filled)).unpack =
      .finite sign mantissa exponent filled := by
  obtain ⟨biased, same⟩ : ∃ biased : Nat, exponent + 1023 + 52 = biased :=
    ⟨_, (Int.toNat_of_nonneg (by omega)).symm⟩
  have field : (exponent + (Format.binary64.exponentBias : Int) + (52 : Nat)).toNat = biased := by
    change (exponent + 1023 + 52).toNat = biased
    omega
  obtain ⟨value, notMaximal, notMinimal⟩ := @exponentField_of_normal biased (by omega) (by omega)
  have packed : UnpackedFloat.pack Format.binary64 (.finite sign mantissa exponent filled) =
      packComponents Format.binary64 sign (BitVec.ofNat 11 biased) (BitVec.ofNat 52 mantissa) := by
    rw [UnpackedFloat.pack.eq_def]
    simp only [field, length, Format.mantissaBits]
    rw [if_neg (by omega), if_pos trivial]
  change UnpackedFloat.unpack Format.binary64
    (UnpackedFloat.pack Format.binary64 (.finite sign mantissa exponent filled)) = _
  rw [packed, UnpackedFloat.unpack.eq_def]
  simp only [unpackMantissa_packComponents, unpackExponent_packComponents,
    unpackSign_packComponents, Sign.ofBitVec_toBitVec]
  rw [if_neg notMaximal, if_neg notMinimal]
  congr 1
  · exact mantissaField_of_normal length
  · rw [value]
    change (biased : Int) - (1023 + 52) = exponent
    omega

private theorem isAwayFromZero_unpack_pack {value : UnpackedFloat} (away : IsAwayFromZero low value)
    (normal : -1074 ≤ low) : IsAwayFromZero low (Float.Model.pack value).unpack := by
  cases away with
  | infinity sign => cases sign <;> exact .infinity _
  | @finite sign mantissa exponent filled length above =>
    rcases lt_or_ge 971 exponent with large | small
    · have overflows : UnpackedFloat.pack Format.binary64 (.finite sign mantissa exponent filled) =
          packedInfinity Format.binary64 sign := by
        rw [UnpackedFloat.pack.eq_def]
        refine if_pos ?_
        change 2 ^ 11 ≤ (exponent + 1023 + 52).toNat + 1
        omega
      change IsAwayFromZero low (UnpackedFloat.unpack Format.binary64
        (UnpackedFloat.pack Format.binary64 (.finite sign mantissa exponent filled)))
      rw [overflows]
      cases sign <;> exact .infinity _
    · rw [unpack_pack_finite length (Int.le_trans normal above) small]
      exact .finite sign filled length above

end Packing

/-- What an integer becomes: itself, with its digits moved to the front, if it has at most 53
digits, and else a number with an exponent that no such integer has. -/
inductive Represents : Int → UnpackedFloat → Prop
  | zero (sign : Sign) : Represents 0 (.zero sign)
  | exact (sign : Sign) {n : Nat} (small : n < 2 ^ 53) (filled : 0 < n * 2 ^ (52 - n.log2)) :
    Represents (sign.apply n) (.finite sign (n * 2 ^ (52 - n.log2)) (n.log2 - 52) filled)
  | large {n : Int} {value : UnpackedFloat} (large : 2 ^ 53 ≤ n.natAbs)
    (away : IsAwayFromZero 1 value) : Represents n value

section Small

variable {n : Nat} (small : n < 2 ^ 53) (filled : 0 < n * 2 ^ (52 - n.log2))
include small filled

theorem log2_digits_in_front : n.log2 ≤ 52 ∧ (n * 2 ^ (52 - n.log2)).log2 = 52 := by
  have nonzero : n ≠ 0 := (Nat.pos_of_mul_pos_right filled).ne'
  have short : n.log2 ≤ 52 := Nat.lt_succ_iff.mp ((Nat.log2_lt nonzero).mpr small)
  refine ⟨short, ?_⟩
  rw [← Nat.shiftLeft_eq, log2_shiftLeft nonzero]
  omega

private theorem ofNat_exact : UnpackedFloat.ofNat Format.binary64 n =
    .finite .positive (n * 2 ^ (52 - n.log2)) (n.log2 - 52) filled := by
  obtain ⟨short, length⟩ := log2_digits_in_front small filled
  have positive : compare (n : Int) 0 = .gt :=
    Int.compare_eq_gt.mpr (Int.natCast_pos.mpr (Nat.pos_of_mul_pos_right filled))
  have target : Format.binary64.targetExponent (totalExponent n 0) = n.log2 - 52 := by
    simp only [Format.targetExponent, totalExponent, Format.mantissaBits, Format.minExponent]
    omega
  have shift : (0 - ((n.log2 : Int) - 52)).toNat = 52 - n.log2 := by omega
  have rounded := @roundWithAccuracy_exact .positive _ (n.log2 - 52) filled length 0 (by omega)
  rw [Nat.pow_zero, Nat.mul_one, Int.natCast_zero, Int.add_zero] at rounded
  simp only [UnpackedFloat.ofNat, UnpackedFloat.ofInt, UnpackedFloat.normalize, positive,
    Int.toNat_natCast, UnpackedFloat.round, target, decreaseExponent, shift, Nat.shiftLeft_eq]
  rw [← rounded]
  congr 1
  omega

theorem floatOfWord_exact : n.toUInt64.toFloat.toModel.unpack =
    .finite .positive (n * 2 ^ (52 - n.log2)) (n.log2 - 52) filled := by
  obtain ⟨short, length⟩ := log2_digits_in_front small filled
  have word : n.toUInt64.toNat = n := by
    rw [Nat.toUInt64, UInt64.toNat_ofNat']
    omega
  change (Float.Model.pack (UnpackedFloat.ofNat Format.binary64 n.toUInt64.toNat)).unpack = _
  rw [word, ofNat_exact small filled, unpack_pack_finite length (by omega) (by omega)]

/-- The number is converted as a machine word and multiplied by one. -/
private theorem floatOfNat_exact : (Float.ofNat n).toModel.unpack =
    .finite .positive (n * 2 ^ (52 - n.log2)) (n.log2 - 52) filled := by
  obtain ⟨short, length⟩ := log2_digits_in_front small filled
  have one : (Float.ofBits 0x3FF0000000000000).toModel.unpack =
      .finite .positive (2 ^ 52) (-52) (by decide) := rfl
  change (Float.ofScientific n false 0).toModel.unpack = _
  rw [Float.ofScientific, dif_pos ⟨small, by decide⟩]
  change (Float.Model.pack (UnpackedFloat.mul Format.binary64
    n.toUInt64.toFloat.toModel.unpack (Float.ofBits 0x3FF0000000000000).toModel.unpack)).unpack = _
  rw [one, floatOfWord_exact small filled]
  have product := @roundWithAccuracy_exact .positive _ ((n.log2 : Int) - 52 + -52) filled length 52
    (by omega)
  change (Float.Model.pack (roundWithAccuracy Format.binary64 .positive
    (n * 2 ^ (52 - n.log2) * 2 ^ 52) ((n.log2 : Int) - 52 + -52) .exact)).unpack = _
  rw [product, unpack_pack_finite length (by omega) (by omega)]
  congr 1
  omega

end Small

private theorem isAwayFromZero_ofScientific {n : Nat} (filled : n ≠ 0) (above : low ≤ n.log2 - 52)
    (normal : -1074 ≤ low) :
    IsAwayFromZero low (UnpackedFloat.ofScientific Format.binary64 n 0) := by
  have length : (n <<< Format.binary64.mantissaBits).log2 = 52 + (n.log2 + 1) := by
    rw [log2_shiftLeft filled]
    change n.log2 + 53 = 52 + (n.log2 + 1)
    omega
  have shifted : low ≤ -(Format.binary64.mantissaBits : Int) + 0 + (n.log2 + 1 : Nat) := by
    change low ≤ -53 + 0 + ((n.log2 + 1 : Nat) : Int)
    omega
  have inRange : ¬ (0 : Int) < -((2 : Int) ^ Format.binary64.exponentBits + (n.log2 : Int)) := by
    change ¬ (0 : Int) < -((2 : Int) ^ 11 + (n.log2 : Int))
    omega
  rw [UnpackedFloat.ofScientific, dif_neg filled, if_neg (by decide), if_neg inRange,
    if_pos (by decide), UnpackedFloat.mul, Int.toNat_zero, Nat.pow_zero, Nat.mul_one]
  exact isAwayFromZero_roundWithAccuracy length shifted normal

private theorem represents_floatOfNat (n : Nat) : Represents n (Float.ofNat n).toModel.unpack := by
  rcases Nat.eq_zero_or_pos n with rfl | filled
  · exact .zero .positive
  rcases Nat.lt_or_ge n (2 ^ 53) with small | large
  · have scaled : 0 < n * 2 ^ (52 - n.log2) := Nat.mul_pos filled (Nat.two_pow_pos _)
    rw [floatOfNat_exact small scaled]
    exact .exact .positive small scaled
  · refine .large large ?_
    have length : 53 ≤ n.log2 := (Nat.le_log2 filled.ne').mpr large
    change IsAwayFromZero 1 (Float.ofScientific n false 0).toModel.unpack
    rw [Float.ofScientific, dif_neg fun word => word.1.not_ge large]
    exact isAwayFromZero_unpack_pack
      (isAwayFromZero_ofScientific filled.ne' (by omega) (by decide)) (by decide)

private theorem Represents.neg {n : Int} {value : UnpackedFloat} (represents : Represents n value) :
    Represents (-n) (Float.Model.pack value.neg).unpack := by
  cases represents with
  | zero sign => cases sign <;> exact .zero _
  | exact sign small filled =>
    obtain ⟨short, length⟩ := log2_digits_in_front small filled
    have negated (n : Int) : -sign.apply n = (-sign).apply n := by
      cases sign
      · exact Int.neg_neg n
      · rfl
    rw [negated, UnpackedFloat.neg, unpack_pack_finite length (by omega) (by omega)]
    exact .exact _ small filled
  | large large away =>
    exact .large (by rwa [Int.natAbs_neg]) (isAwayFromZero_unpack_pack away.neg (by decide))

theorem represents_floatOfInt (n : Int) : Represents n (Float.ofInt n).toModel.unpack := by
  cases n with
  | ofNat n => exact represents_floatOfNat n
  | negSucc n => exact (represents_floatOfNat n.succ).neg

section Different

variable {m n : Int} {value : UnpackedFloat}

theorem Represents.eq_zero {sign : Sign} (represents : Represents n (.zero sign)) : n = 0 := by
  cases represents with
  | zero => rfl
  | large large away => cases away

private theorem not_isAwayFromZero_exact {sign : Sign} {n : Nat} (small : n < 2 ^ 53)
    (filled : 0 < n * 2 ^ (52 - n.log2)) :
    ¬IsAwayFromZero 1 (.finite sign (n * 2 ^ (52 - n.log2)) (n.log2 - 52) filled) := by
  intro away
  obtain ⟨short, -⟩ := log2_digits_in_front small filled
  cases away
  omega

/-- Different integers become different numbers, unless both have more than 53 digits. -/
theorem Represents.eq_or_large (left : Represents m value) (right : Represents n value) :
    m = n ∨ 2 ^ 53 ≤ m.natAbs ∧ 2 ^ 53 ≤ n.natAbs := by
  cases left with
  | zero => exact .inl right.eq_zero.symm
  | @exact sign m small filled =>
    generalize number : UnpackedFloat.finite sign _ _ filled = value at right
    cases right with
    | zero => cases number
    | @exact _ n small' filled' =>
      -- The exponents tell how far the digits were moved.
      obtain ⟨rfl, mantissas, exponents⟩ := UnpackedFloat.finite.inj number
      have moved : m.log2 = n.log2 := by omega
      rw [moved] at mantissas
      obtain rfl := Nat.eq_of_mul_eq_mul_right (Nat.two_pow_pos _) mantissas
      exact .inl rfl
    | large large away => exact absurd (number ▸ away) (not_isAwayFromZero_exact small filled)
  | large large away =>
    cases right with
    | zero => cases away
    | exact sign small filled => exact absurd away (not_isAwayFromZero_exact small filled)
    | large large' away' => exact .inr ⟨large, large'⟩

end Different

end FloatingPoint

/-- Different integers are different as floating point numbers, unless both are at least `2 ^ 53`
in size. -/
theorem Number.eq_or_large_of_toFloat_beq {m n : Int64}
    (same : ((Number.int m).toFloat == (Number.int n).toFloat) = true) :
    m = n ∨ 2 ^ 53 ≤ m.toInt.natAbs ∧ 2 ^ 53 ≤ n.toInt.natAbs := by
  have left := FloatingPoint.represents_floatOfInt m.toInt
  have right := FloatingPoint.represents_floatOfInt n.toInt
  rw [← Int64.toInt_inj]
  obtain ⟨-, -, same | ⟨leftZero, rightZero⟩ | ⟨leftZero, rightZero⟩⟩ :=
    (Float.Model.UnpackedFloat.beq_iff_ne_notANumber_and_eq _ _).mp same
  · exact left.eq_or_large (same ▸ right)
  · exact .inl ((leftZero ▸ left).eq_zero.trans (rightZero ▸ right).eq_zero.symm)
  · exact .inl ((leftZero ▸ left).eq_zero.trans (rightZero ▸ right).eq_zero.symm)

/-- Only the integer zero equals zero as a floating point number. -/
theorem Number.toFloat_int_beq_zero (n : Int64) :
    ((Number.int n).toFloat == 0.0) = decide (n = 0) := by
  by_cases isZero : n = 0
  · subst isZero
    decide
  · rw [decide_eq_false isZero, Bool.eq_false_iff]
    intro same
    -- Zero is not large.
    rcases eq_or_large_of_toFloat_beq (n := 0) same with zero | ⟨-, large⟩
    · exact isZero zero
    · exact absurd large (by decide)

end Stencil
