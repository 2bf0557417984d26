import Mathlib
import Stencil.Decimal.Shortest

/-! # The values of floating point numbers

The patterns of bits of the numbers that are not negative count these numbers in ascending order,
`Dyadic.value_strictMono`, with infinity in the place of the number `2 ^ 1024` that would come next.
A number is nearest to a rational one if it lies between the midpoints to its two neighbours,
`Dyadic.isNearest_of_isBetween`; of two numbers that are equally near the one with an even pattern
is taken, so that there is one nearest number, `Dyadic.IsNearest.unique`.
-/

namespace Stencil.Decimal

/-- The number as a rational one. -/
def Scaled.value (decimal : Scaled) : ℚ :=
  decimal.coefficient * 10 ^ decimal.exponent

theorem log2_le_of_lt {n count : Nat} (small : n < 2 ^ (count + 1)) : n.log2 ≤ count := by
  rcases Nat.eq_zero_or_pos n with rfl | filled
  · exact Nat.zero_le _
  · exact Nat.lt_succ_iff.mp ((Nat.log2_lt filled.ne').mpr small)

namespace Dyadic

/-- The number as a rational one. -/
def value (number : Dyadic) : ℚ :=
  number.significand * 2 ^ number.exponent

/-- The number whose exponent and fraction fields are the given bits. -/
def ofBits (bits : Nat) : Dyadic :=
  ofFields (bits / 2 ^ 52) (bits % 2 ^ 52)

/-- The bits of infinity. As the bits of a number they stand for `2 ^ 1024`. -/
def infinityBits : Nat :=
  2047 * 2 ^ 52

section Order

/-- A significand of 53 digits stands in front of the exponent that the bits behind it count. -/
theorem ofBits_normal (exponent : Nat) {significand : Nat} (lower : 2 ^ 52 ≤ significand)
    (upper : significand < 2 ^ 53) : ofBits (exponent * 2 ^ 52 + significand) =
      ⟨significand, exponent - 1074, significand = 2 ^ 52 && exponent ≠ 0⟩ := by
  obtain ⟨fraction, rfl⟩ := Nat.exists_eq_add_of_le lower
  have field : (exponent * 2 ^ 52 + (2 ^ 52 + fraction)) / 2 ^ 52 = exponent + 1 := by omega
  have rest : (exponent * 2 ^ 52 + (2 ^ 52 + fraction)) % 2 ^ 52 = fraction := by omega
  rw [ofBits, field, rest, ofFields, if_neg (Nat.succ_ne_zero exponent), Nat.pow_eq]
  congr 1
  · push_cast
    ring
  · simp

theorem ofBits_subnormal {significand : Nat} (small : significand < 2 ^ 52) :
    ofBits significand = ⟨significand, -1074, false⟩ := by
  rw [ofBits, Nat.div_eq_of_lt small, Nat.mod_eq_of_lt small, ofFields, if_pos rfl]

/-- The bits of a number are its significand and, in front of it, its exponent, unless it has the
least exponent and fewer digits. -/
theorem exists_exponent (bits : Nat) : ∃ exponent significand : Nat,
    bits = exponent * 2 ^ 52 + significand ∧ significand < 2 ^ 53 ∧
      (2 ^ 52 ≤ significand ∨ exponent = 0) := by
  rcases Nat.lt_or_ge bits (2 ^ 52) with small | large
  · exact ⟨0, bits, by omega, by omega, .inr rfl⟩
  · exact ⟨bits / 2 ^ 52 - 1, bits % 2 ^ 52 + 2 ^ 52, by omega, by omega, .inl (by omega)⟩

/-- The same numbers are counted with a significand that has just become one digit longer. -/
theorem value_ofBits {exponent significand : Nat} (upper : significand ≤ 2 ^ 53)
    (lower : 2 ^ 52 ≤ significand ∨ exponent = 0) :
    (ofBits (exponent * 2 ^ 52 + significand)).value =
      significand * 2 ^ ((exponent : Int) - 1074) := by
  rcases Nat.lt_or_eq_of_le upper with short | rfl
  · rcases Nat.lt_or_ge significand (2 ^ 52) with small | large
    · obtain rfl := lower.resolve_left small.not_ge
      rw [Nat.zero_mul, Nat.zero_add, ofBits_subnormal small, value]
      simp
    · rw [ofBits_normal exponent large short, value]
  · have moved : exponent * 2 ^ 52 + 2 ^ 53 = (exponent + 1) * 2 ^ 52 + 2 ^ 52 := by ring
    have next : ((exponent + 1 : Nat) : Int) - 1074 = 1 + ((exponent : Int) - 1074) := by
      push_cast
      ring
    rw [moved, ofBits_normal (exponent + 1) le_rfl (by decide), value, next,
      zpow_add₀ (by norm_num)]
    push_cast
    ring

theorem exponent_ofBits {exponent significand : Nat} (upper : significand < 2 ^ 53)
    (lower : 2 ^ 52 ≤ significand ∨ exponent = 0) :
    (ofBits (exponent * 2 ^ 52 + significand)).exponent = (exponent : Int) - 1074 := by
  rcases Nat.lt_or_ge significand (2 ^ 52) with small | large
  · obtain rfl := lower.resolve_left small.not_ge
    rw [Nat.zero_mul, Nat.zero_add, ofBits_subnormal small]
    rfl
  · rw [ofBits_normal exponent large upper]

/-- The next larger number is one unit away. -/
theorem value_ofBits_succ (bits : Nat) :
    (ofBits (bits + 1)).value = (ofBits bits).value + 2 ^ (ofBits bits).exponent := by
  obtain ⟨exponent, significand, rfl, upper, lower⟩ := exists_exponent bits
  rw [exponent_ofBits upper lower, value_ofBits upper.le lower, Nat.add_assoc,
    value_ofBits upper (lower.imp_left (Nat.le_succ_of_le ·))]
  push_cast
  ring

/-- The next larger number is at least as far away as the numbers with this exponent are. -/
theorem le_value_ofBits_succ {exponent significand : Nat} (upper : significand ≤ 2 ^ 53)
    (lower : 2 ^ 52 ≤ significand ∨ exponent = 0) :
    (significand + 1) * 2 ^ ((exponent : Int) - 1074) ≤
      (ofBits (exponent * 2 ^ 52 + significand + 1)).value := by
  have unit : (2 : ℚ) ^ ((exponent : Int) - 1074) ≤
      2 ^ (ofBits (exponent * 2 ^ 52 + significand)).exponent := by
    refine zpow_le_zpow_right₀ (by norm_num) ?_
    rcases Nat.lt_or_eq_of_le upper with short | rfl
    · exact (exponent_ofBits short lower).ge
    · have moved : exponent * 2 ^ 52 + 2 ^ 53 = (exponent + 1) * 2 ^ 52 + 2 ^ 52 := by ring
      rw [moved, exponent_ofBits (by decide) (.inl le_rfl)]
      push_cast
      linarith
  rw [value_ofBits_succ, value_ofBits upper lower]
  linarith

theorem value_strictMono : StrictMono fun bits => (ofBits bits).value :=
  strictMono_nat_of_lt_succ fun bits => by
    rw [value_ofBits_succ]
    exact lt_add_of_pos_right _ (by positivity)

theorem value_nonneg (number : Dyadic) : 0 ≤ number.value := by
  rw [value]
  positivity

end Order

section Nearest

/-- Whether the bits are those of the number nearest to a rational one that is not negative: no
number is nearer, and if another one is equally near, then the bits are even. -/
def IsNearest (bits : Nat) (rational : ℚ) : Prop :=
  bits ≤ infinityBits ∧ ∀ other ≤ infinityBits,
    |rational - (ofBits bits).value| < |rational - (ofBits other).value| ∨
      |rational - (ofBits bits).value| = |rational - (ofBits other).value| ∧
        (other = bits ∨ Even bits)

/-- Two numbers with nothing between them do not both have even bits. -/
theorem IsNearest.unique {first second : Nat} {rational : ℚ} (isFirst : IsNearest first rational)
    (isSecond : IsNearest second rational) : first = second := by
  wlog ordered : first < second generalizing first second
  · rcases Nat.lt_or_eq_of_le (Nat.le_of_not_lt ordered) with other | same
    · exact (this isSecond isFirst other).symm
    · exact same.symm
  have left := isFirst.2 second isSecond.1
  have right := isSecond.2 first isFirst.1
  rcases left with left | ⟨equal, evenFirst⟩
  · rcases right with right | ⟨equal, -⟩
    · exact absurd left right.not_gt
    · exact absurd equal left.ne'
  rcases right with right | ⟨-, evenSecond⟩
  · exact absurd equal right.ne'
  obtain ⟨half, firstIs⟩ := evenFirst.resolve_left ordered.ne'
  obtain ⟨half', secondIs⟩ := evenSecond.resolve_left ordered.ne
  -- The number between the two is nearer than both.
  have lower : (ofBits first).value < (ofBits (first + 1)).value :=
    value_strictMono (Nat.lt_succ_self first)
  have upper : (ofBits (first + 1)).value < (ofBits second).value :=
    value_strictMono (by omega)
  have between := isFirst.2 (first + 1) (ordered.trans_le isSecond.1)
  have farther : ¬|rational - (ofBits (first + 1)).value| < |rational - (ofBits first).value| := by
    rcases between with nearer | ⟨same, -⟩
    · exact nearer.not_gt
    · exact same.le.not_gt
  rcases abs_eq_abs.mp equal with same | opposite
  · exact absurd (sub_right_injective same) (lower.trans upper).ne
  · refine absurd ?_ farther
    rw [abs_of_pos (a := rational - (ofBits first).value) (by linarith), abs_lt]
    constructor <;> linarith

/-- Whether a rational number lies between the midpoints from a number to its two neighbours, and
strictly so if the bits of the number are odd. -/
structure IsBetween (bits : Nat) (rational : ℚ) : Prop where
  lower : ∀ smaller, smaller + 1 = bits →
    (ofBits smaller).value + (ofBits bits).value < 2 * rational ∨
      (ofBits smaller).value + (ofBits bits).value = 2 * rational ∧ Even bits
  upper : 2 * rational < (ofBits bits).value + (ofBits (bits + 1)).value ∨
    2 * rational = (ofBits bits).value + (ofBits (bits + 1)).value ∧ Even bits

section Distance

variable {rational near far : ℚ}

private theorem distance_lt_of_above (ordered : far < near) (above : far + near < 2 * rational) :
    |rational - near| < |rational - far| := by
  rw [abs_of_pos (a := rational - far) (by linarith), abs_lt]
  constructor <;> linarith

private theorem distance_lt_of_below (ordered : near < far) (below : 2 * rational < near + far) :
    |rational - near| < |rational - far| := by
  rw [abs_of_neg (a := rational - far) (by linarith), abs_lt]
  constructor <;> linarith

private theorem distance_eq_of_midpoint (middle : 2 * rational = near + far) :
    |rational - near| = |rational - far| := by
  rw [abs_eq_abs]
  right
  linarith

end Distance

/-- A number too large to be one of double precision is replaced by infinity. -/
theorem isNearest_of_isBetween {bits : Nat} {rational : ℚ} (between : IsBetween bits rational) :
    IsNearest (min bits infinityBits) rational := by
  refine ⟨min_le_right _ _, fun other finite => ?_⟩
  rcases Nat.lt_trichotomy other (min bits infinityBits) with less | rfl | greater
  · have below : (ofBits other).value < (ofBits (min bits infinityBits)).value :=
      value_strictMono less
    obtain ⟨smaller, rfl⟩ : ∃ smaller, bits = smaller + 1 := ⟨bits - 1, by omega⟩
    have farther : (ofBits other).value ≤ (ofBits smaller).value :=
      value_strictMono.monotone (by omega)
    have capped : (ofBits (min (smaller + 1) infinityBits)).value ≤ (ofBits (smaller + 1)).value :=
      value_strictMono.monotone (min_le_left _ _)
    rcases between.lower smaller rfl with strict | ⟨middle, even⟩
    · exact .inl (distance_lt_of_above below (by linarith))
    · rcases lt_or_eq_of_le (add_le_add farther capped) with strict | same
      · exact .inl (distance_lt_of_above below (middle ▸ strict))
      · refine .inr ⟨distance_eq_of_midpoint (by linarith), .inr ?_⟩
        have kept : (ofBits (min (smaller + 1) infinityBits)).value =
            (ofBits (smaller + 1)).value := by linarith
        rwa [value_strictMono.injective kept]
  · exact .inr ⟨rfl, .inl rfl⟩
  · have small : min bits infinityBits = bits := by omega
    rw [small] at greater ⊢
    have above : (ofBits bits).value < (ofBits other).value := value_strictMono greater
    have farther : (ofBits (bits + 1)).value ≤ (ofBits other).value :=
      value_strictMono.monotone greater
    rcases between.upper with strict | ⟨middle, even⟩
    · exact .inl (distance_lt_of_below above (by linarith))
    · rcases lt_or_eq_of_le farther with strict | same
      · exact .inl (distance_lt_of_below above (by linarith))
      · exact .inr ⟨distance_eq_of_midpoint (by linarith), .inr even⟩

end Nearest

end Dyadic

end Stencil.Decimal
