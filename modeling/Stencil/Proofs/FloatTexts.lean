import Stencil.Proofs.NumberTexts
import Stencil.Proofs.Rounding
import Stencil.Proofs.ShortestDigits

/-! # The texts of floating point numbers

The text of a finite number is its sign and the text of a decimal, `Layout.toList_floatText`, to
which the number is nearest. A layout decides by the leading digit of that decimal, and where it
does, at `10 ^ 16` and `10 ^ -4`, the decimal is on the same side as the number itself,
`le_leading_decimal_iff` and `leading_decimal_lt_iff`.
-/

namespace Stencil.Decimal

section Leading

variable {decimal : Scaled}

private theorem value_lt_pow_leading : decimal.value < 10 ^ (decimal.leading + 1) := by
  have short : (decimal.coefficient : ℚ) < 10 ^ (digits decimal.coefficient).length := by
    have small := numberOf_lt (isDigit_of_mem_digits decimal.coefficient)
    rw [numberOf_digits] at small
    exact_mod_cast small
  have exponents : decimal.leading + 1 =
      ((digits decimal.coefficient).length : Int) + decimal.exponent := by
    rw [Scaled.leading]
    ring
  rw [Scaled.value, exponents, zpow_add₀ (by norm_num), zpow_natCast]
  exact mul_lt_mul_of_pos_right short (by positivity)

private theorem pow_leading_le_value (filled : 0 < decimal.coefficient) :
    10 ^ decimal.leading ≤ decimal.value := by
  have long : (10 : ℚ) ^ ((digits decimal.coefficient).length - 1) ≤ decimal.coefficient := by
    exact_mod_cast pow_le_of_digits filled
  have exponents : decimal.leading =
      ((digits decimal.coefficient).length - 1 : Nat) + decimal.exponent := by
    rw [Scaled.leading, Nat.cast_pred (List.length_pos_iff.mpr (digits_ne_nil _))]
  rw [Scaled.value, exponents, zpow_add₀ (by norm_num), zpow_natCast]
  exact mul_le_mul_of_nonneg_right long (by positivity)

private theorem le_leading_iff (filled : 0 < decimal.coefficient) {power : Int} :
    power ≤ decimal.leading ↔ 10 ^ power ≤ decimal.value := by
  constructor
  · intro small
    exact (zpow_le_zpow_right₀ (by norm_num) small).trans (pow_leading_le_value filled)
  · intro large
    by_contra small
    have above : (10 : ℚ) ^ (decimal.leading + 1) ≤ 10 ^ power :=
      zpow_le_zpow_right₀ (by norm_num) (by omega)
    exact absurd value_lt_pow_leading (above.trans large).not_gt

end Leading

/-- Zeros behind a number multiply it by a power of ten. -/
theorem digits_mul_pow {n : Nat} (filled : 0 < n) (count : Nat) :
    digits (n * 10 ^ count) = digits n ++ List.replicate count '0' := by
  induction count with
  | zero => simp
  | succ count ih =>
    have large : ¬n * 10 ^ count * 10 < 10 := by
      have : 0 < n * 10 ^ count := Nat.mul_pos filled (Nat.pow_pos (by decide))
      omega
    rw [pow_succ, ← mul_assoc, digits, if_neg large, Nat.mul_div_cancel _ (by decide),
      Nat.mul_mod_left, ih, List.replicate_succ', List.append_assoc]
    rfl

namespace Dyadic

section Integral

variable {number : Dyadic}

private theorem admits_of_value_eq {decimal : Scaled} (filled : 0 < number.significand)
    (same : decimal.value = number.value) : number.admits decimal = true := by
  have lower : number.lowerEnd < number.value := by
    have less : number.lowerQuarters < 4 * number.significand := by
      rw [lowerQuarters]
      split <;> omega
    rw [lowerEnd, value_eq_quarters]
    exact mul_lt_mul_of_pos_right (by exact_mod_cast less) (by positivity)
  have upper : number.value < number.upperEnd := by
    have more : 4 * number.significand < number.upperQuarters := Nat.lt_add_of_pos_right (by decide)
    rw [upperEnd, value_eq_quarters]
    exact mul_lt_mul_of_pos_right (by exact_mod_cast more) (by positivity)
  rw [admits_iff, same]
  split
  · exact ⟨lower.le, upper.le⟩
  · exact ⟨lower, upper⟩

/-- A number without a fraction is itself a multiple of one. -/
private theorem value_below_zero (integral : 0 ≤ number.exponent) :
    (number.below 0).value = number.value := by
  obtain ⟨count, countEq⟩ := Int.eq_ofNat_of_zero_le integral
  have whole : number.value = (number.significand * 2 ^ count : Nat) := by
    rw [value, countEq]
    push_cast
    rfl
  have units (coefficient : Nat) : (⟨coefficient, 0⟩ : Scaled).value = coefficient := by
    rw [Scaled.value, zpow_zero, mul_one]
  have lower := below_le number 0
  have upper := lt_above number 0
  have same : number.below 0 = ⟨(number.below 0).coefficient, 0⟩ := rfl
  rw [above, units, whole, Nat.cast_lt] at upper
  rw [same, units, whole, Nat.cast_le] at lower
  rw [same, units, whole, Nat.cast_inj]
  omega

/-- The search comes to the multiples of one, unless it stops before it gets there. -/
private theorem exponent_shortest_nonneg (filled : 0 < number.significand)
    (integral : 0 ≤ number.exponent)
    (finest : (number.onGrid? (number.exponentBound - (19 : Nat))).isSome = true) :
    0 ≤ number.shortest.exponent := by
  have units : (number.onGrid? 0).isSome = true :=
    onGrid?_isSome (.inl (admits_of_value_eq filled (value_below_zero integral)))
  have bound : 0 ≤ number.exponentBound := by
    rw [exponentBound]
    omega
  obtain ⟨step, inTime, notBeyond, has⟩ : ∃ step : Nat, step < 20 ∧
      (step : Int) ≤ number.exponentBound ∧
        (number.onGrid? (number.exponentBound - step)).isSome = true := by
    by_cases early : number.exponentBound < 20
    · refine ⟨number.exponentBound.toNat, by omega, by omega, ?_⟩
      rwa [Int.toNat_of_nonneg bound, sub_self]
    · exact ⟨19, by decide, by omega, finest⟩
  obtain ⟨first, before, found⟩ := exists_step_of_onGrid? inTime has
  have reached : (first : Int) ≤ number.exponentBound := (Int.ofNat_le.mpr before).trans notBeyond
  exact (Int.sub_nonneg_of_le reached).trans_eq (onGrid?_eq_some found).1.symm

end Integral

private theorem value_ofBits_pos {bits : Nat} (filled : 0 < bits) : 0 < (ofBits bits).value :=
  (value_nonneg (ofBits 0)).trans_lt (value_strictMono filled)

private theorem significand_ofBits_pos {bits : Nat} (filled : 0 < bits) :
    0 < (ofBits bits).significand := by
  by_contra zero
  have positive := value_ofBits_pos filled
  rw [value, Nat.eq_zero_of_not_pos zero, Nat.cast_zero, zero_mul] at positive
  exact positive.false

section Shortest

variable {bits : Nat} (finite : bits < infinityBits)
include finite

private theorem isBetween_shortest : IsBetween bits (ofBits bits).shortest.value :=
  isBetween_of_admits (admits_shortest finite)

theorem coefficient_shortest_pos (filled : 0 < bits) : 0 < (ofBits bits).shortest.coefficient := by
  obtain ⟨smaller, rfl⟩ : ∃ smaller, bits = smaller + 1 := ⟨bits - 1, by omega⟩
  have nonneg := value_nonneg (ofBits smaller)
  have above : (ofBits smaller).value < (ofBits (smaller + 1)).value :=
    value_strictMono (Nat.lt_succ_self smaller)
  have positive : 0 < (ofBits (smaller + 1)).shortest.value := by
    rcases (isBetween_shortest finite).lower smaller rfl with strict | ⟨same, -⟩ <;> linarith
  by_contra zero
  rw [Scaled.value, Nat.eq_zero_of_not_pos zero] at positive
  simp at positive

/-- If the first number that is not below a power of ten is written as that power, then it is also
the first one whose decimal is not below it. -/
private theorem le_leading_shortest_iff (filled : 0 < bits) {first : Nat} {power : Int}
    (isFirst : (ofBits (first + 1)).shortest = ⟨1, power⟩)
    (notBelow : 10 ^ power ≤ (ofBits (first + 1)).value)
    (midpoint : (ofBits first).value + (ofBits (first + 1)).value < 2 * 10 ^ power) :
    power ≤ (ofBits bits).shortest.leading ↔ 10 ^ power ≤ (ofBits bits).value := by
  rw [le_leading_iff (coefficient_shortest_pos finite filled)]
  have between := isBetween_shortest finite
  rcases Nat.lt_trichotomy bits (first + 1) with less | rfl | greater
  · have next : (ofBits (bits + 1)).value ≤ (ofBits (first + 1)).value :=
      value_strictMono.monotone (Nat.succ_le_of_lt less)
    have here : (ofBits bits).value ≤ (ofBits first).value :=
      value_strictMono.monotone (Nat.le_of_lt_succ less)
    have upper : 2 * (ofBits bits).shortest.value ≤
        (ofBits bits).value + (ofBits (bits + 1)).value := by
      rcases between.upper with strict | ⟨same, -⟩
      · exact strict.le
      · exact same.le
    constructor <;> intro large <;> linarith
  · rw [isFirst, Scaled.value]
    simpa using notBelow
  · obtain ⟨smaller, rfl⟩ : ∃ smaller, bits = smaller + 1 := ⟨bits - 1, by omega⟩
    have previous : (ofBits (first + 1)).value ≤ (ofBits smaller).value :=
      value_strictMono.monotone (Nat.le_of_lt_succ greater)
    have here : (ofBits smaller).value < (ofBits (smaller + 1)).value :=
      value_strictMono (Nat.lt_succ_self smaller)
    have lower : (ofBits smaller).value + (ofBits (smaller + 1)).value ≤
        2 * (ofBits (smaller + 1)).shortest.value := by
      rcases between.lower smaller rfl with strict | ⟨same, -⟩
      · exact strict.le
      · exact same.le
    constructor <;> intro large <;> linarith

/-- A number without a fraction is written without one. -/
theorem exponent_shortest_ofBits_nonneg (filled : 0 < bits)
    (integral : 0 ≤ (ofBits bits).exponent) : 0 ≤ (ofBits bits).shortest.exponent := by
  obtain ⟨length, least, greatest⟩ := fields_of_finite finite
  exact exponent_shortest_nonneg (significand_ofBits_pos filled) integral
    (exists_grid length least greatest)

end Shortest

end Dyadic

/-- The bits of a floating point number without the one of its sign. -/
def magnitudeBits (x : Float) : Nat :=
  x.toBits.toNat % 2 ^ 63

/-- The absolute value of a finite floating point number. -/
def magnitude (x : Float) : ℚ :=
  (Dyadic.ofBits (magnitudeBits x)).value

/-- The sign in front of a written floating point number. -/
def signText (x : Float) : List Char :=
  if x.toBits.toNat < 2 ^ 63 then [] else ['-']

/-- The decimal that a finite floating point number is written as, without its sign. -/
def decimal (x : Float) : Scaled :=
  if magnitudeBits x = 0 then ⟨0, 0⟩ else (Dyadic.ofBits (magnitudeBits x)).shortest

open Float.Model Float.Model.UnpackedFloat in
/-- The greatest exponent field is that of infinity and of what is not a number. -/
theorem isFinite_iff {x : Float} :
    x.isFinite = true ↔ x.toBits.toNat / 2 ^ 52 % 2 ^ 11 ≠ 2047 := by
  have value : (@unpackExponent Format.binary64 x.toBits.toBitVec).toNat =
      x.toBits.toNat / 2 ^ 52 % 2 ^ 11 := by
    rw [unpackExponent, BitVec.toNat_cast, BitVec.extractLsb_toNat, Nat.shiftRight_eq_div_pow]
    rfl
  have field : @unpackExponent Format.binary64 x.toBits.toBitVec = -1#11 ↔
      x.toBits.toNat / 2 ^ 52 % 2 ^ 11 = 2047 := by
    rw [← value, ← BitVec.toNat_inj]
    rfl
  change (UnpackedFloat.unpack Format.binary64 x.toBits.toBitVec).isFinite = true ↔ _
  rw [Ne, ← field, UnpackedFloat.unpack.eq_def]
  by_cases maximal : @unpackExponent Format.binary64 x.toBits.toBitVec = -1#11
  · simp only [maximal, if_true]
    split <;> simp [UnpackedFloat.isFinite]
  · simp only [maximal, if_false]
    repeat' split
    all_goals simp [UnpackedFloat.isFinite]

section Finite

variable {x : Float} (finite : x.isFinite = true)
include finite

theorem magnitudeBits_lt : magnitudeBits x < Dyadic.infinityBits := by
  have field := isFinite_iff.mp finite
  rw [magnitudeBits, Dyadic.infinityBits]
  omega

/-- The text of a finite number: its sign, and its decimal as the layout has it. -/
theorem Layout.toList_floatText (layout : Layout) :
    (layout.floatText x).toList = signText x ++ layout.decimalText (decimal x) := by
  have field := isFinite_iff.mp finite
  have text : layout.magnitudeText (x.toBits.toNat / 2 ^ 52 % 2 ^ 11) (x.toBits.toNat % 2 ^ 52) =
      layout.decimalText (decimal x) := by
    have upper : magnitudeBits x / 2 ^ 52 = x.toBits.toNat / 2 ^ 52 % 2 ^ 11 := by
      rw [magnitudeBits]
      omega
    have lower : magnitudeBits x % 2 ^ 52 = x.toBits.toNat % 2 ^ 52 := by
      rw [magnitudeBits]
      omega
    have zero : magnitudeBits x = 0 ↔
        x.toBits.toNat / 2 ^ 52 % 2 ^ 11 = 0 ∧ x.toBits.toNat % 2 ^ 52 = 0 := by
      omega
    rw [magnitudeText, decimal, Dyadic.ofBits, upper, lower]
    simp only [zero, apply_ite layout.decimalText]
  have sign : (if x.toBits.toNat / 2 ^ 63 = 0 then "" else "-").toList = signText x := by
    have small : x.toBits.toNat / 2 ^ 63 = 0 ↔ x.toBits.toNat < 2 ^ 63 := by omega
    simp only [small, signText]
    split <;> rfl
  simp only [floatText, Nat.pow_eq, if_neg field, String.toList_append, String.toList_ofList, text,
    sign]

theorem isNearest_decimal : Dyadic.IsNearest (magnitudeBits x) (decimal x).value := by
  rw [decimal]
  split
  · next zero =>
    rw [zero]
    exact FloatingPoint.isNearest_zero (by norm_num [Scaled.value])
  · exact Dyadic.isNearest_shortest (magnitudeBits_lt finite)

omit finite in
theorem magnitude_eq_zero_iff : magnitude x = 0 ↔ magnitudeBits x = 0 := by
  rw [magnitude]
  constructor
  · intro zero
    by_contra filled
    exact (Dyadic.value_ofBits_pos (Nat.pos_of_ne_zero filled)).ne' zero
  · intro zero
    rw [zero, Dyadic.ofBits_subnormal (by decide), Dyadic.value, Nat.cast_zero, zero_mul]

omit finite in
private theorem leading_zero : Scaled.leading ⟨0, 0⟩ = 0 := by
  simp [Scaled.leading, digits]

theorem le_leading_decimal_iff : 16 ≤ (decimal x).leading ↔ 10 ^ 16 ≤ magnitude x := by
  rw [decimal]
  split
  · next zero =>
    rw [leading_zero, magnitude_eq_zero_iff.mpr zero]
    norm_num
  · next filled =>
    have isFirst : (Dyadic.ofBits (4846369599423283199 + 1)).shortest = ⟨1, 16⟩ := by
      decide +kernel
    have switch := Dyadic.le_leading_shortest_iff (magnitudeBits_lt finite)
      (Nat.pos_of_ne_zero filled) isFirst
      (by norm_num [Dyadic.ofBits, Dyadic.ofFields, Dyadic.value])
      (by norm_num [Dyadic.ofBits, Dyadic.ofFields, Dyadic.value])
    exact_mod_cast switch

theorem leading_decimal_lt_iff :
    (decimal x).leading < -4 ↔ magnitude x ≠ 0 ∧ magnitude x < 1 / 10 ^ 4 := by
  rw [Ne, magnitude_eq_zero_iff, decimal]
  split
  · next zero => simp [leading_zero, zero]
  · next filled =>
    have isFirst : (Dyadic.ofBits (4547007122018943788 + 1)).shortest = ⟨1, -4⟩ := by
      decide +kernel
    have switch := Dyadic.le_leading_shortest_iff (magnitudeBits_lt finite)
      (Nat.pos_of_ne_zero filled) isFirst
      (by norm_num [Dyadic.ofBits, Dyadic.ofFields, Dyadic.value])
      (by norm_num [Dyadic.ofBits, Dyadic.ofFields, Dyadic.value])
    rw [← not_le, switch, not_le]
    simp [filled, magnitude, zpow_neg]

end Finite

end Stencil.Decimal
