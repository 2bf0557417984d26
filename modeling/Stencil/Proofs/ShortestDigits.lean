import Stencil.Proofs.FloatingPointValues

/-! # The shortest digits of a floating point number

The grids of decimals are searched from coarse to fine, and a decimal is accepted if it lies between
the midpoints to the two neighbours of the number. On the finest of the twenty grids there always is
one, `Dyadic.exists_grid`, so the decimal that is found is one to which the number is nearest,
`Dyadic.isNearest_shortest`.
-/

namespace Stencil.Decimal.Dyadic

private theorem pow_toNat {base : ℚ} (nonzero : base ≠ 0) (exponent : Int) :
    base ^ exponent.toNat = base ^ exponent * base ^ (-exponent).toNat := by
  rcases Int.le_total 0 exponent with up | down
  · obtain ⟨count, rfl⟩ := Int.eq_ofNat_of_zero_le up
    simp
  · obtain ⟨count, rfl⟩ := Int.exists_eq_neg_ofNat down
    simp [nonzero]

/-- The lower end of the reals that round to the number. -/
def lowerEnd (number : Dyadic) : ℚ :=
  number.lowerQuarters * 2 ^ (number.exponent - 2)

/-- The upper end of the reals that round to the number. -/
def upperEnd (number : Dyadic) : ℚ :=
  number.upperQuarters * 2 ^ (number.exponent - 2)

section Weights

variable (number : Dyadic) (exponent : Int)

/-- Both weights scale by the same number. -/
private theorem exists_scale : ∃ scale : ℚ, 0 < scale ∧
    number.decimalWeight exponent = 10 ^ exponent * scale ∧
    number.quarterWeight exponent = 2 ^ (number.exponent - 2) * scale := by
  refine ⟨2 ^ (2 - number.exponent).toNat * 10 ^ (-exponent).toNat, by positivity, ?_, ?_⟩
  · rw [decimalWeight, Nat.pow_eq, Nat.pow_eq]
    push_cast
    rw [pow_toNat (by norm_num) exponent]
    ring
  · rw [quarterWeight, Nat.pow_eq, Nat.pow_eq]
    push_cast
    rw [pow_toNat (by norm_num) (number.exponent - 2), neg_sub]
    ring

private theorem quarters_le_iff (quarters coefficient : Nat) :
    quarters * number.quarterWeight exponent ≤ coefficient * number.decimalWeight exponent ↔
      quarters * 2 ^ (number.exponent - 2) ≤ (⟨coefficient, exponent⟩ : Scaled).value := by
  obtain ⟨scale, positive, decimal, quarter⟩ := exists_scale number exponent
  rw [← Nat.cast_le (α := ℚ), Nat.cast_mul, Nat.cast_mul, decimal, quarter, ← mul_assoc,
    ← mul_assoc, mul_le_mul_iff_left₀ positive]
  rfl

private theorem le_quarters_iff (quarters coefficient : Nat) :
    coefficient * number.decimalWeight exponent ≤ quarters * number.quarterWeight exponent ↔
      (⟨coefficient, exponent⟩ : Scaled).value ≤ quarters * 2 ^ (number.exponent - 2) := by
  obtain ⟨scale, positive, decimal, quarter⟩ := exists_scale number exponent
  rw [← Nat.cast_le (α := ℚ), Nat.cast_mul, Nat.cast_mul, decimal, quarter, ← mul_assoc,
    ← mul_assoc, mul_le_mul_iff_left₀ positive]
  rfl

theorem value_eq_quarters : number.value = (4 * number.significand : Nat) *
    2 ^ (number.exponent - 2) := by
  rw [value, zpow_sub₀ (by norm_num)]
  push_cast
  ring

/-- The multiple of a power of ten that is not above the number. -/
theorem below_le : (number.below exponent).value ≤ number.value := by
  rw [value_eq_quarters, below, ← le_quarters_iff]
  exact Nat.div_mul_le_self _ _

/-- The next multiple is above it. -/
theorem lt_above : number.value < (number.above exponent).value := by
  have positive : 0 < number.decimalWeight exponent :=
    Nat.mul_pos (Nat.pow_pos (by decide)) (Nat.pow_pos (by decide))
  rw [value_eq_quarters, above, ← not_le, ← le_quarters_iff, not_le,
    Nat.mul_comm ((number.below exponent).coefficient + 1)]
  exact Nat.lt_mul_div_succ _ positive

private theorem value_above : (number.above exponent).value =
    (number.below exponent).value + 10 ^ exponent := by
  simp only [above, below, Scaled.value]
  push_cast
  ring

end Weights

theorem admits_iff {number : Dyadic} {decimal : Scaled} : number.admits decimal = true ↔
    if number.significand % 2 = 0 then
      number.lowerEnd ≤ decimal.value ∧ decimal.value ≤ number.upperEnd
    else number.lowerEnd < decimal.value ∧ decimal.value < number.upperEnd := by
  have lower := quarters_le_iff number decimal.exponent
  have upper := le_quarters_iff number decimal.exponent
  rw [admits]
  split
  · simp only [Bool.and_eq_true, decide_eq_true_eq, lower, upper, lowerEnd, upperEnd]
  · simp only [Bool.and_eq_true, decide_eq_true_eq, ← not_le, lower, upper, lowerEnd, upperEnd]

section Neighbours

variable {bits : Nat} {decimal : Scaled}

private theorem even_significand_iff (bits : Nat) :
    (ofBits bits).significand % 2 = 0 ↔ Even bits := by
  obtain ⟨exponent, significand, rfl, upper, lower⟩ := exists_exponent bits
  have even : Even (exponent * 2 ^ 52 + significand) ↔ significand % 2 = 0 := by
    rw [Nat.even_iff]
    omega
  rw [even]
  rcases Nat.lt_or_ge significand (2 ^ 52) with small | large
  · obtain rfl := lower.resolve_left small.not_ge
    rw [Nat.zero_mul, Nat.zero_add, ofBits_subnormal small]
  · rw [ofBits_normal exponent large upper]

private theorem two_mul_upperEnd (bits : Nat) :
    2 * (ofBits bits).upperEnd = (ofBits bits).value + (ofBits (bits + 1)).value := by
  rw [value_ofBits_succ, upperEnd, upperQuarters, value, zpow_sub₀ (by norm_num)]
  push_cast
  ring

/-- The gap to the next smaller number is half a unit where the exponent has just grown. -/
private theorem two_mul_lowerEnd (bits : Nat) :
    2 * (ofBits (bits + 1)).lowerEnd = (ofBits bits).value + (ofBits (bits + 1)).value := by
  obtain ⟨exponent, significand, rfl, upper, lower⟩ := exists_exponent bits
  rw [value_ofBits upper.le lower, Nat.add_assoc,
    value_ofBits upper (lower.imp_left (Nat.le_succ_of_le ·)), lowerEnd, lowerQuarters,
    zpow_sub₀ (by norm_num)]
  rcases Nat.lt_or_eq_of_le (Nat.succ_le_of_lt upper) with short | long
  · have fields : ofBits (exponent * 2 ^ 52 + (significand + 1)) =
        ⟨significand + 1, exponent - 1074, false⟩ := by
      rcases Nat.lt_or_ge (significand + 1) (2 ^ 52) with small | large
      · obtain rfl := lower.resolve_left (by omega)
        rw [Nat.zero_mul, Nat.zero_add, ofBits_subnormal small]
        rfl
      · rw [ofBits_normal exponent large short]
        congr 1
        rw [Bool.and_eq_false_iff, decide_eq_false_iff_not, decide_eq_false_iff_not]
        omega
    have quarters : 4 * (significand + 1) - 2 = 4 * significand + 2 := by omega
    simp only [fields, Bool.false_eq_true, if_false, quarters]
    push_cast
    ring
  · have fields : ofBits (exponent * 2 ^ 52 + (significand + 1)) =
        ⟨2 ^ 52, ((exponent + 1 : Nat) : Int) - 1074, true⟩ := by
      have moved : exponent * 2 ^ 52 + (significand + 1) = (exponent + 1) * 2 ^ 52 + 2 ^ 52 := by
        omega
      rw [moved, ofBits_normal (exponent + 1) le_rfl (by decide)]
      simp
    obtain rfl : significand = 2 ^ 53 - 1 := by omega
    have next : ((exponent + 1 : Nat) : Int) - 1074 = 1 + ((exponent : Int) - 1074) := by
      push_cast
      ring
    simp only [fields, if_true, next]
    rw [zpow_add₀ (by norm_num)]
    norm_num
    ring

/-- A decimal that is accepted lies between the midpoints to the two neighbours. -/
theorem isBetween_of_admits (admits : (ofBits bits).admits decimal = true) :
    IsBetween bits decimal.value := by
  rw [admits_iff] at admits
  refine ⟨?_, ?_⟩
  · rintro smaller rfl
    rw [← two_mul_lowerEnd]
    split at admits
    · next even =>
      rcases lt_or_eq_of_le admits.1 with strict | same
      · exact .inl (by linarith)
      · exact .inr ⟨by rw [same], (even_significand_iff _).mp even⟩
    · exact .inl (by linarith)
  · rw [← two_mul_upperEnd]
    split at admits
    · next even =>
      rcases lt_or_eq_of_le admits.2 with strict | same
      · exact .inl (by linarith)
      · exact .inr ⟨by rw [same], (even_significand_iff _).mp even⟩
    · exact .inl (by linarith)

/-- A number is nearest to each decimal that is accepted for it. -/
theorem isNearest_of_admits (finite : bits < infinityBits)
    (admits : (ofBits bits).admits decimal = true) : IsNearest bits decimal.value := by
  have nearest := isNearest_of_isBetween (isBetween_of_admits admits)
  rwa [min_eq_left finite.le] at nearest

end Neighbours

section Grids

theorem onGrid?_eq_some {number : Dyadic} {exponent : Int} {decimal : Scaled}
    (found : number.onGrid? exponent = some decimal) :
    decimal.exponent = exponent ∧ number.admits decimal = true := by
  rw [onGrid?] at found
  split at found
  · next isBelow isAbove =>
    obtain rfl := Option.some.inj found
    split
    · exact ⟨rfl, isBelow⟩
    · exact ⟨rfl, isAbove⟩
  · next isBelow _ =>
    obtain rfl := Option.some.inj found
    exact ⟨rfl, isBelow⟩
  · next _ isAbove =>
    obtain rfl := Option.some.inj found
    exact ⟨rfl, isAbove⟩
  · cases found

theorem onGrid?_isSome {number : Dyadic} {exponent : Int}
    (admits : number.admits (number.below exponent) = true ∨
      number.admits (number.above exponent) = true) :
    (number.onGrid? exponent).isSome = true := by
  rw [onGrid?]
  split <;> simp_all

private theorem exists_first_of_range {α : Type} (f : Nat → Option α) {step count : Nat}
    (inTime : step < count) (has : (f step).isSome = true) :
    ∃ first ≤ step, ∃ found, f first = some found ∧
      (List.range count).findSome? f = some found := by
  induction count with
  | zero => exact absurd inTime (Nat.not_lt_zero step)
  | succ count ih =>
    rw [List.range_succ, List.findSome?_append]
    rcases Nat.lt_succ_iff_lt_or_eq.mp inTime with earlier | rfl
    · obtain ⟨first, before, found, isFirst, searched⟩ := ih earlier
      exact ⟨first, before, found, isFirst, by rw [searched]; rfl⟩
    · cases searched : (List.range step).findSome? f with
      | some found =>
        obtain ⟨first, isEarlier, isFirst⟩ := List.exists_of_findSome?_eq_some searched
        exact ⟨first, (List.mem_range.mp isEarlier).le, found, isFirst, rfl⟩
      | none =>
        obtain ⟨found, isFound⟩ := Option.isSome_iff_exists.mp has
        exact ⟨step, le_rfl, found, isFound, by simp [isFound]⟩

/-- The decimal that is found is on a grid at least as coarse as any that has one. -/
theorem exists_step_of_onGrid? {number : Dyadic} {step : Nat} (inTime : step < 20)
    (has : (number.onGrid? (number.exponentBound - step)).isSome = true) :
    ∃ first ≤ step, number.onGrid? (number.exponentBound - first) = some number.shortest := by
  obtain ⟨first, before, found, isFirst, searched⟩ :=
    exists_first_of_range (fun step => number.onGrid? (number.exponentBound - step)) inTime has
  refine ⟨first, before, isFirst.trans ?_⟩
  rw [shortest, searched, Option.getD_some]

end Grids

/-- A power of ten is smaller than a power of two if it is so for both fractions near the logarithm
of two, one on each side. -/
private theorem ten_zpow_lt_two_zpow {x y : Int} (above : 196 * x < 59 * y)
    (below : 93 * x < 28 * y) : (10 : ℚ) ^ x < 2 ^ y := by
  rcases Int.le_total 0 x with up | down
  · refine lt_of_pow_lt_pow_left₀ 59 (by positivity) ?_
    calc ((10 : ℚ) ^ x) ^ 59 = (10 ^ 59) ^ x := by
          rw [← zpow_natCast, ← zpow_mul, mul_comm, zpow_mul, zpow_natCast]
      _ ≤ (2 ^ 196) ^ x := zpow_le_zpow_left₀ up (by norm_num) (by norm_num)
      _ = 2 ^ (196 * x) := by
          rw [zpow_mul]
          rfl
      _ < 2 ^ (59 * y) := zpow_lt_zpow_right₀ (by norm_num) above
      _ = (2 ^ y) ^ 59 := by
          rw [← zpow_natCast, ← zpow_mul, mul_comm]
          rfl
  · obtain ⟨count, rfl⟩ := Int.exists_eq_neg_ofNat down
    refine lt_of_pow_lt_pow_left₀ 28 (by positivity) ?_
    calc ((10 : ℚ) ^ (-(count : Int))) ^ 28 = ((10 ^ 28) ^ count)⁻¹ := by
          rw [zpow_neg, zpow_natCast, inv_pow, ← pow_mul, ← pow_mul, mul_comm]
      _ ≤ ((2 ^ 93) ^ count)⁻¹ := by gcongr; norm_num
      _ = 2 ^ (93 * -(count : Int)) := by
          rw [← pow_mul, mul_neg, zpow_neg]
          rfl
      _ < 2 ^ (28 * y) := zpow_lt_zpow_right₀ (by norm_num) below
      _ = (2 ^ y) ^ 28 := by
          rw [← zpow_natCast, ← zpow_mul, mul_comm]
          rfl

/-- On the last grid there is a decimal between the number and the upper end. -/
theorem exists_grid {number : Dyadic} (length : number.significand.log2 ≤ 52)
    (lower : -1074 ≤ number.exponent) (upper : number.exponent ≤ 971) :
    (number.onGrid? (number.exponentBound - (19 : Nat))).isSome = true := by
  obtain ⟨exponent, exponentEq⟩ : ∃ exponent, number.exponentBound - (19 : Nat) = exponent :=
    ⟨_, rfl⟩
  have fine : (10 : ℚ) ^ exponent < 2 ^ (number.exponent - 1) := by
    rw [exponentBound] at exponentEq
    exact ten_zpow_lt_two_zpow (by omega) (by omega)
  have isBelow := below_le number exponent
  have isAbove := lt_above number exponent
  rw [exponentEq]
  refine onGrid?_isSome (.inr ?_)
  have lowerEnd_le : number.lowerEnd ≤ number.value := by
    rw [value_eq_quarters, lowerEnd, lowerQuarters]
    gcongr
    exact Nat.sub_le _ _
  have upperEnd_eq : number.upperEnd = number.value + 2 ^ (number.exponent - 1) := by
    rw [value_eq_quarters, upperEnd, upperQuarters, zpow_sub₀ (by norm_num),
      zpow_sub₀ (by norm_num)]
    push_cast
    ring
  rw [value_above] at isAbove
  rw [admits_iff, value_above]
  split
  · constructor <;> linarith
  · constructor <;> linarith

section Shortest

variable {bits : Nat} (finite : bits < infinityBits)
include finite

theorem fields_of_finite : (ofBits bits).significand.log2 ≤ 52 ∧
    -1074 ≤ (ofBits bits).exponent ∧ (ofBits bits).exponent ≤ 971 := by
  obtain ⟨exponent, significand, rfl, upper, lower⟩ := exists_exponent bits
  rw [infinityBits] at finite
  rw [exponent_ofBits upper lower]
  refine ⟨log2_le_of_lt ?_, by omega, by omega⟩
  rcases Nat.lt_or_ge significand (2 ^ 52) with small | large
  · obtain rfl := lower.resolve_left small.not_ge
    rw [Nat.zero_mul, Nat.zero_add, ofBits_subnormal small]
    exact upper
  · rw [ofBits_normal exponent large upper]
    exact upper

/-- The number is nearest to its shortest decimal. -/
theorem admits_shortest : (ofBits bits).admits (ofBits bits).shortest = true := by
  obtain ⟨length, lower, upper⟩ := fields_of_finite finite
  obtain ⟨step, -, found⟩ :=
    exists_step_of_onGrid? (by decide : 19 < 20) (exists_grid length lower upper)
  exact (onGrid?_eq_some found).2

theorem isNearest_shortest : IsNearest bits (ofBits bits).shortest.value :=
  isNearest_of_admits finite (admits_shortest finite)

end Shortest

end Stencil.Decimal.Dyadic
