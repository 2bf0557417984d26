import Stencil.Operator.Meaning
import Stencil.Proofs.IntegerConversion

/-! # Arithmetic on integers

What the arithmetic operators make of two integers, truth values among them. Division rounds
towards zero first, and then the quotient and the remainder are corrected each on its own: the two
corrections are made together and do not overflow, `BinaryOperator.floorDiv_mod`. By
`BinaryOperator.apply_integers`, an operator gives the exact result if that fits into 64 bits, with
exceptions for the remainder and the power, and a floating point number otherwise.
-/

namespace Stencil

section Narrowing

private theorem narrow?_eq_some_iff {n : Int} {k : Int64} : narrow? n = some k ↔ k.toInt = n := by
  have bound : Int.pow 2 63 = 2 ^ 63 := rfl
  rw [narrow?, bound]
  constructor
  · intro fits
    split at fits
    · next inRange =>
      cases fits
      exact Int64.toInt_ofInt_of_le inRange.1 inRange.2
    · cases fits
  · rintro rfl
    rw [if_pos ⟨k.le_toInt, k.toInt_lt⟩, Int64.ofInt_toInt]

private theorem narrow?_eq_none_iff {n : Int} : narrow? n = none ↔ ∀ k : Int64, k.toInt ≠ n := by
  rw [Option.eq_none_iff_forall_ne_some]
  exact forall_congr' fun k => not_congr narrow?_eq_some_iff

private theorem exists_narrow? {n : Int} (lower : -2 ^ 63 ≤ n) (upper : n < 2 ^ 63) :
    ∃ k : Int64, narrow? n = some k ∧ k.toInt = n := by
  have same : (Int64.ofInt n).toInt = n := Int64.toInt_ofInt_of_le lower upper
  exact ⟨.ofInt n, narrow?_eq_some_iff.mpr same, same⟩

private theorem narrow?_eq_none_of_large {n : Int} (large : 2 ^ 64 ≤ n.natAbs) :
    narrow? n = none := by
  rw [narrow?_eq_none_iff]
  rintro k rfl
  have lower := k.le_toInt
  have upper := k.toInt_lt
  omega

end Narrowing

/-- A quotient and a remainder that lies between zero and the divisor. -/
structure DividesDown (m n q r : Int) : Prop where
  sum : m = q * n + r
  size : |r| < |n|
  side : r = 0 ∨ r.sign = n.sign

namespace DividesDown

variable {m n q r : Int}

/-- The remainder and the divisor have a ratio that is not negative. -/
private theorem ratio (divides : DividesDown m n q r) : (r : ℚ) / n = |(r : ℚ)| / |(n : ℚ)| := by
  rcases divides.side with rfl | same
  · rw [Int.cast_zero, zero_div, abs_zero, zero_div]
  · rcases lt_trichotomy r 0 with negative | rfl | positive
    · have divisor : n < 0 := by
        rwa [Int.sign_eq_neg_one_of_neg negative, eq_comm, Int.sign_eq_neg_one_iff_neg] at same
      rw [abs_of_neg (by exact_mod_cast negative), abs_of_neg (by exact_mod_cast divisor),
        neg_div_neg_eq]
    · rw [Int.cast_zero, zero_div, abs_zero, zero_div]
    · have divisor : 0 < n := by
        rwa [Int.sign_eq_one_of_pos positive, eq_comm, Int.sign_eq_one_iff_pos] at same
      rw [abs_of_pos (by exact_mod_cast positive), abs_of_pos (by exact_mod_cast divisor)]

private theorem quotient_eq_floor (divides : DividesDown m n q r) : q = ⌊(m : ℚ) / n⌋ := by
  have ratio := divides.ratio
  obtain ⟨rfl, size, -⟩ := divides
  have divisor : (n : ℚ) ≠ 0 := by
    rintro zero
    rw [Int.cast_eq_zero.mp zero, abs_zero] at size
    exact (abs_nonneg r).not_gt size
  have whole : ((q * n + r : Int) : ℚ) / n = q + |(r : ℚ)| / |(n : ℚ)| := by
    rw [Int.cast_add, Int.cast_mul, add_div, mul_div_cancel_right₀ _ divisor, ratio]
  have below : |(r : ℚ)| / |(n : ℚ)| < 1 := by
    rw [div_lt_one (abs_pos.mpr divisor)]
    exact_mod_cast size
  have above : 0 ≤ |(r : ℚ)| / |(n : ℚ)| := div_nonneg (abs_nonneg _) (abs_nonneg _)
  rw [eq_comm, Int.floor_eq_iff, whole]
  constructor <;> linarith

private theorem remainder_eq (divides : DividesDown m n q r) : r = m - n * ⌊(m : ℚ) / n⌋ := by
  rw [← divides.quotient_eq_floor, divides.sum]
  ring

end DividesDown

private theorem natAbs_tdiv_le_half (m : Int) {n : Int} (large : 2 ≤ n.natAbs) :
    (m.tdiv n).natAbs ≤ m.natAbs / 2 := by
  rw [show (m.tdiv n).natAbs = m.natAbs / n.natAbs from Int.natAbs_tdiv m n]
  exact Nat.div_le_div_left large (by decide)

/-- What remains when rounding towards zero has the sign of the dividend. -/
private theorem tmod_sides (m : Int) {n : Int} (nonzero : n ≠ 0) :
    (m.tmod n).natAbs < n.natAbs ∧ (0 ≤ m → 0 ≤ m.tmod n) ∧ (m ≤ 0 → m.tmod n ≤ 0) := by
  refine ⟨?_, fun sign => Int.tmod_nonneg n sign, fun sign => ?_⟩
  · rw [Int.natAbs_tmod]
    exact Nat.mod_lt _ (Int.natAbs_pos.mpr nonzero)
  · have mirrored := Int.tmod_nonneg n (Int.neg_nonneg_of_nonpos sign)
    rw [Int.neg_tmod] at mirrored
    omega

/-- The tests of the two corrections agree. -/
private theorem tmod_neg_iff (m : Int) {n : Int} (nonzero : n ≠ 0) (remains : m.tmod n ≠ 0) :
    m.tmod n < 0 ↔ m < 0 := by
  obtain ⟨-, above, below⟩ := tmod_sides m nonzero
  omega

private theorem sign_eq_of_same_side {r n : Int} (same : r < 0 ∧ n < 0 ∨ 0 < r ∧ 0 < n) :
    r.sign = n.sign := by
  obtain ⟨left, right⟩ | ⟨left, right⟩ := same
  · rw [Int.sign_eq_neg_one_of_neg left, Int.sign_eq_neg_one_of_neg right]
  · rw [Int.sign_eq_one_of_pos left, Int.sign_eq_one_of_pos right]

namespace DividesDown

/-- Rounding towards zero rounds down if nothing remains or the signs are the same. -/
private theorem uncorrected (m : Int) {n : Int} (nonzero : n ≠ 0)
    (fine : m.tmod n ≠ 0 → (m < 0 ↔ n < 0)) : DividesDown m n (m.tdiv n) (m.tmod n) := by
  have sum := Int.mul_tdiv_add_tmod m n
  obtain ⟨size, above, below⟩ := tmod_sides m nonzero
  refine ⟨by linarith, ?_, or_iff_not_imp_left.mpr fun remains => sign_eq_of_same_side ?_⟩
  · rw [Int.abs_eq_natAbs, Int.abs_eq_natAbs]
    omega
  · have same := fine remains
    omega

private theorem corrected (m : Int) {n : Int} (nonzero : n ≠ 0) (remains : m.tmod n ≠ 0)
    (differ : ¬(m < 0 ↔ n < 0)) : DividesDown m n (m.tdiv n - 1) (m.tmod n + n) := by
  have sum := Int.mul_tdiv_add_tmod m n
  obtain ⟨size, above, below⟩ := tmod_sides m nonzero
  refine ⟨by linarith, ?_, .inr (sign_eq_of_same_side (by omega))⟩
  rw [Int.abs_eq_natAbs, Int.abs_eq_natAbs]
  omega

end DividesDown

section Division

variable {m n : Int64}

/-- Rounding towards zero stays within the bounds, unless the least number changes its sign. -/
private theorem exists_quotient? (nonzero : n.toInt ≠ 0)
    (fits : ¬(m.toInt = -2 ^ 63 ∧ n.toInt = -1)) :
    ∃ k, quotient? m.toInt n.toInt = some k ∧ k.toInt = m.toInt.tdiv n.toInt := by
  rw [quotient?, if_neg nonzero]
  have lower := m.le_toInt
  have upper := m.toInt_lt
  generalize m.toInt = m at *
  generalize n.toInt = n at *
  rcases Nat.lt_or_ge 1 n.natAbs with large | unit
  · have half := natAbs_tdiv_le_half m large
    exact exists_narrow? (by omega) (by omega)
  · obtain rfl | rfl : n = 1 ∨ n = -1 := by omega
    · rw [Int.tdiv_one]
      exact exists_narrow? lower upper
    · rw [Int.tdiv_neg, Int.tdiv_one]
      exact exists_narrow? (by omega) (by omega)

private theorem exists_remainder? (nonzero : n.toInt ≠ 0)
    (fits : ¬(m.toInt = -2 ^ 63 ∧ n.toInt = -1)) :
    ∃ k, remainder? m.toInt n.toInt = some k ∧ k.toInt = m.toInt.tmod n.toInt := by
  obtain ⟨quotient, found, -⟩ := exists_quotient? nonzero fits
  rw [remainder?, found, Option.bind_some]
  have size : (m.toInt.tmod n.toInt).natAbs = m.toInt.natAbs % n.toInt.natAbs :=
    Int.natAbs_tmod m.toInt n.toInt
  have smaller := Nat.mod_lt m.toInt.natAbs (Int.natAbs_pos.mpr nonzero)
  have lower := n.le_toInt
  have upper := n.toInt_lt
  exact exists_narrow? (by omega) (by omega)

private theorem floorQuotient?_eq {quotient remainder : Int64}
    (divided : quotient? m.toInt n.toInt = some quotient)
    (remaining : remainder? m.toInt n.toInt = some remainder) :
    floorQuotient? m.toInt n.toInt =
      if remainder.toInt ≠ 0 ∧ ¬(m.toInt < 0 ↔ n.toInt < 0) then narrow? (quotient.toInt - 1)
      else some quotient := by
  have isZero : remainder = 0 ↔ remainder.toInt = 0 := Int64.toInt_inj.symm
  simp only [floorQuotient?, divided, remaining, isZero, ne_eq, decide_eq_decide,
    Option.bind_eq_bind, Option.bind_some, Option.pure_def]

private theorem floorRemainder?_eq {remainder : Int64}
    (remaining : remainder? m.toInt n.toInt = some remainder) :
    floorRemainder? m.toInt n.toInt =
      if remainder.toInt ≠ 0 ∧ ¬(remainder.toInt < 0 ↔ n.toInt < 0) then
        narrow? (remainder.toInt + n.toInt)
      else some remainder := by
  have isZero : remainder = 0 ↔ remainder.toInt = 0 := Int64.toInt_inj.symm
  simp only [floorRemainder?, remaining, isZero, ne_eq, decide_eq_decide, Option.bind_eq_bind,
    Option.bind_some, Option.pure_def]

/-- Both corrections are made, or neither, and what they give fits. -/
private theorem exists_floorQuotient? (nonzero : n.toInt ≠ 0)
    (fits : ¬(m.toInt = -2 ^ 63 ∧ n.toInt = -1)) :
    ∃ q r, floorQuotient? m.toInt n.toInt = some q ∧ floorRemainder? m.toInt n.toInt = some r ∧
      DividesDown m.toInt n.toInt q.toInt r.toInt ∧
      ((q.toInt = m.toInt.tdiv n.toInt ∧ r.toInt = m.toInt.tmod n.toInt) ∨
        (q.toInt = m.toInt.tdiv n.toInt - 1 ∧ r.toInt = m.toInt.tmod n.toInt + n.toInt)) := by
  obtain ⟨quotient, divided, quotientEq⟩ := exists_quotient? nonzero fits
  obtain ⟨remainder, remaining, remainderEq⟩ := exists_remainder? nonzero fits
  rw [floorQuotient?_eq divided remaining, floorRemainder?_eq remaining, remainderEq, quotientEq]
  by_cases corrects : m.toInt.tmod n.toInt ≠ 0 ∧ ¬(m.toInt < 0 ↔ n.toInt < 0)
  · rw [if_pos corrects, if_pos (by rwa [tmod_neg_iff m.toInt nonzero corrects.1])]
    -- Something remains, so the divisor is no unit and the quotient is far from the bounds.
    obtain ⟨size, above, below⟩ := tmod_sides m.toInt nonzero
    have half := natAbs_tdiv_le_half m.toInt (n := n.toInt) (by omega)
    have divides := DividesDown.corrected m.toInt nonzero corrects.1 corrects.2
    have bounds := And.intro m.le_toInt m.toInt_lt
    have bounds' := And.intro n.le_toInt n.toInt_lt
    obtain ⟨q, found, qEq⟩ := exists_narrow? (n := m.toInt.tdiv n.toInt - 1) (by omega) (by omega)
    obtain ⟨r, found', rEq⟩ :=
      exists_narrow? (n := m.toInt.tmod n.toInt + n.toInt) (by omega) (by omega)
    exact ⟨q, r, found, found', by rwa [qEq, rEq], .inr ⟨qEq, rEq⟩⟩
  · have same (remains : m.toInt.tmod n.toInt ≠ 0) : m.toInt < 0 ↔ n.toInt < 0 := by
      by_contra differ
      exact corrects ⟨remains, differ⟩
    rw [if_neg corrects, if_neg fun ⟨remains, differ⟩ => differ (by
      rw [tmod_neg_iff m.toInt nonzero remains, same remains])]
    have divides := DividesDown.uncorrected m.toInt nonzero same
    exact ⟨quotient, remainder, rfl, rfl, by rwa [quotientEq, remainderEq],
      .inl ⟨quotientEq, remainderEq⟩⟩

/-- The quotient rounded down is computed whenever it fits. -/
theorem floorQuotient?_eq_narrow? (nonzero : n.toInt ≠ 0) :
    floorQuotient? m.toInt n.toInt = narrow? ⌊(m.toInt : ℚ) / n.toInt⌋ := by
  by_cases fits : m.toInt = -2 ^ 63 ∧ n.toInt = -1
  · have divides : DividesDown (-2 ^ 63) (-1) (2 ^ 63) 0 :=
      ⟨by decide, by decide, .inl rfl⟩
    rw [fits.1, fits.2, ← divides.quotient_eq_floor]
    decide
  · obtain ⟨q, r, divided, -, divides, -⟩ := exists_floorQuotient? nonzero fits
    rw [divided, eq_comm, narrow?_eq_some_iff]
    exact divides.quotient_eq_floor

/-- The remainder is lost where the quotient rounded towards zero does not fit. -/
theorem floorRemainder?_eq_narrow? (nonzero : n.toInt ≠ 0) :
    floorRemainder? m.toInt n.toInt =
      if m.toInt = -2 ^ 63 ∧ n.toInt = -1 then none
      else narrow? (m.toInt - n.toInt * ⌊(m.toInt : ℚ) / n.toInt⌋) := by
  by_cases fits : m.toInt = -2 ^ 63 ∧ n.toInt = -1
  · rw [if_pos fits, fits.1, fits.2]
    decide
  · obtain ⟨q, r, -, remaining, divides, -⟩ := exists_floorQuotient? nonzero fits
    rw [if_neg fits, remaining, eq_comm, narrow?_eq_some_iff]
    exact divides.remainder_eq

end Division

section Powers

private theorem pow_eq_of_unit {base : Int} (unit : base.natAbs ≤ 1) (exponent : Nat) :
    (if (exponent : Int) = 0 then 1 else if (exponent : Int) % 2 = 0 then base * base else base) =
      base ^ exponent := by
  obtain rfl | rfl | rfl : base = 0 ∨ base = 1 ∨ base = -1 := by omega
  · by_cases zero : exponent = 0
    · rw [if_pos (by omega), zero, pow_zero]
    · rw [if_neg (by omega), zero_pow zero, zero_mul, ite_self]
  · rw [one_mul, ite_self, ite_self, one_pow]
  · rcases Nat.even_or_odd exponent with even | odd
    · have whole := Nat.even_iff.mp even
      rw [even.neg_one_pow, if_pos (by omega : (exponent : Int) % 2 = 0)]
      exact ite_self _
    · have remains := Nat.odd_iff.mp odd
      rw [odd.neg_one_pow, if_neg (by omega), if_neg (by omega)]

private theorem narrow?_pow_eq_none {base : Int} {exponent : Nat} (large : 2 ≤ base.natAbs)
    (long : 64 ≤ exponent) : narrow? (base ^ exponent) = none := by
  apply narrow?_eq_none_of_large
  rw [Int.natAbs_pow]
  calc 2 ^ 64 ≤ 2 ^ exponent := Nat.pow_le_pow_right (by decide) long
    _ ≤ base.natAbs ^ exponent := Nat.pow_le_pow_left large exponent

/-- Powers are exact but for the large exponents of the units and zero. -/
theorem power?_eq (base : Int) {exponent : Int} (natural : 0 ≤ exponent) :
    power? base exponent =
      if base.natAbs ≤ 1 ∧ 2 ^ 32 ≤ exponent then none
      else narrow? (base ^ exponent.toNat) := by
  have bound : Int.pow 2 32 = 2 ^ 32 := rfl
  obtain ⟨exponent, rfl⟩ := Int.eq_ofNat_of_zero_le natural
  rw [power?, bound, Int.toNat_natCast]
  by_cases long : 2 ^ 32 ≤ (exponent : Int)
  · rw [if_pos (.inr long)]
    by_cases unit : base.natAbs ≤ 1
    · rw [if_pos ⟨unit, long⟩]
    · rw [narrow?_pow_eq_none (by omega) (by omega), ite_self]
  · have counted : ¬((exponent : Int) < 0 ∨ 2 ^ 32 ≤ (exponent : Int)) := by omega
    rw [if_neg counted, if_neg fun widens : _ ∧ _ => long widens.2]
    by_cases unit : base.natAbs ≤ 1
    · rw [if_pos unit, pow_eq_of_unit unit]
    · rw [if_neg unit]
      by_cases large : 64 ≤ (exponent : Int)
      · rw [if_pos large, narrow?_pow_eq_none (by omega) (by omega)]
      · rw [if_neg large]
        rfl

end Powers

private theorem Value.number?_eq_int_iff {value : Value} {n : Int64} :
    value.number? = some (.int n) ↔
      value = .int n ∨ ∃ b, value = .bool b ∧ n = if b then 1 else 0 := by
  constructor
  · intro isInt
    cases value <;> cases isInt
    · exact .inr ⟨_, rfl, rfl⟩
    · exact .inl rfl
  · rintro (rfl | ⟨b, rfl, rfl⟩) <;> rfl

namespace BinaryOperator

/-- The result of an operator on integers without bounds, where this is an integer. -/
def unbounded? : BinaryOperator → Int → Int → Option Int
  | .add, m, n => some (m + n)
  | .sub, m, n => some (m - n)
  | .mul, m, n => some (m * n)
  | .floorDiv, m, n => if n = 0 then none else some ⌊(m : ℚ) / n⌋
  | .mod, m, n => if n = 0 then none else some (m - n * ⌊(m : ℚ) / n⌋)
  | .pow, m, n => if n < 0 then none else some (m ^ n.toNat)
  | _, _, _ => none

/-- The results that fit into 64 bits and are not computed on integers: the remainder whose
quotient does not fit, and the powers of zero and the units with an exponent beyond 32 bits. -/
def widensEarly : BinaryOperator → Int → Int → Bool
  | .mod, m, n => m = -2 ^ 63 ∧ n = -1
  | .pow, base, exponent => base.natAbs ≤ 1 ∧ 2 ^ 32 ≤ exponent
  | _, _, _ => false

section Operands

variable {left right : Value} {m n : Int64}

private theorem dividing_of_ne_zero (operator : BinaryOperator)
    (isRight : right.number? = some (.int n)) (nonzero : n.toInt ≠ 0) (quotient : Result Value) :
    operator.dividing left right quotient = quotient := by
  have notZero : isZero right = false := by
    rw [isZero, isRight]
    change ((Number.int n).toFloat == 0.0) = false
    rw [Number.toFloat_int_beq_zero]
    exact decide_eq_false fun zero => nonzero (by rw [zero]; rfl)
  rw [dividing, notZero, Bool.and_false]
  rfl

private theorem arithmetic_integers (operator : BinaryOperator) (checked : Int → Int → Option Int64)
    (approximate : Float → Float → Float) (isLeft : left.number? = some (.int m))
    (isRight : right.number? = some (.int n)) :
    operator.arithmetic checked approximate left right =
      match checked m.toInt n.toInt with
      | some result => .ok (.int result)
      | none => .ok (.float (approximate (Number.int m).toFloat (Number.int n).toFloat)) := by
  cases found : checked m.toInt n.toInt <;> simp only [arithmetic, isLeft, isRight, found]

/-- Sequences aside, sums and products are arithmetic as well. -/
private theorem apply_add_of_integers (isLeft : left.number? = some (.int m))
    (isRight : right.number? = some (.int n)) : add.apply left right =
      add.arithmetic (fun m n => narrow? (m + n)) (· + ·) left right := by
  rcases Value.number?_eq_int_iff.mp isLeft with rfl | ⟨_, rfl, -⟩ <;>
    rcases Value.number?_eq_int_iff.mp isRight with rfl | ⟨_, rfl, -⟩ <;> rfl

private theorem apply_mul_of_integers (isLeft : left.number? = some (.int m))
    (isRight : right.number? = some (.int n)) : mul.apply left right =
      mul.arithmetic (fun m n => narrow? (m * n)) (· * ·) left right := by
  rcases Value.number?_eq_int_iff.mp isLeft with rfl | ⟨_, rfl, -⟩ <;>
    rcases Value.number?_eq_int_iff.mp isRight with rfl | ⟨_, rfl, -⟩ <;> rfl

/-- Each operator is arithmetic with a function that gives the result if it fits. -/
private theorem exists_arithmetic {operator : BinaryOperator} {result : Int}
    (isLeft : left.number? = some (.int m)) (isRight : right.number? = some (.int n))
    (defined : operator.unbounded? m.toInt n.toInt = some result) :
    ∃ checked approximate,
      operator.apply left right = operator.arithmetic checked approximate left right ∧
        checked m.toInt n.toInt =
          if operator.widensEarly m.toInt n.toInt then none else narrow? result := by
  cases operator with
  | add =>
    cases defined
    exact ⟨_, _, apply_add_of_integers isLeft isRight, rfl⟩
  | sub =>
    cases defined
    exact ⟨fun m n => narrow? (m - n), _, rfl, rfl⟩
  | mul =>
    cases defined
    exact ⟨_, _, apply_mul_of_integers isLeft isRight, rfl⟩
  | floorDiv =>
    obtain ⟨nonzero, same⟩ := Option.ite_none_left_eq_some.mp defined
    cases same
    exact ⟨_, _, dividing_of_ne_zero _ isRight nonzero _, floorQuotient?_eq_narrow? nonzero⟩
  | mod =>
    obtain ⟨nonzero, same⟩ := Option.ite_none_left_eq_some.mp defined
    cases same
    refine ⟨_, _, dividing_of_ne_zero _ isRight nonzero _, ?_⟩
    rw [floorRemainder?_eq_narrow? nonzero]
    simp only [widensEarly, decide_eq_true_eq]
  | pow =>
    obtain ⟨natural, same⟩ := Option.ite_none_left_eq_some.mp defined
    cases same
    refine ⟨power?, _, rfl, ?_⟩
    rw [power?_eq _ (Int.not_lt.mp natural)]
    simp only [widensEarly, decide_eq_true_eq]
  | _ => cases defined

/-- An operator on integers gives an integer or a floating point number, and an integer exactly
if its result fits and is not among those that widen early. -/
theorem apply_integers {operator : BinaryOperator} {result : Int}
    (isLeft : left.number? = some (.int m)) (isRight : right.number? = some (.int n))
    (defined : operator.unbounded? m.toInt n.toInt = some result) :
    (∀ k : Int64, operator.apply left right = .ok (.int k) ↔
      k.toInt = result ∧ operator.widensEarly m.toInt n.toInt = false) ∧
    ((∃ k, operator.apply left right = .ok (.int k)) ∨
      ∃ x, operator.apply left right = .ok (.float x)) := by
  obtain ⟨checked, approximate, applied, checkedEq⟩ := exists_arithmetic isLeft isRight defined
  have found (k : Int64) : checked m.toInt n.toInt = some k ↔
      k.toInt = result ∧ operator.widensEarly m.toInt n.toInt = false := by
    rw [checkedEq, Option.ite_none_left_eq_some, narrow?_eq_some_iff, Bool.not_eq_true, and_comm]
  simp only [← found]
  rw [applied, arithmetic_integers operator checked approximate isLeft isRight]
  cases checked m.toInt n.toInt with
  | none => exact ⟨fun k => ⟨nofun, nofun⟩, .inr ⟨_, rfl⟩⟩
  | some result =>
    refine ⟨fun k => ?_, .inl ⟨result, rfl⟩⟩
    simp only [Except.ok.injEq, Value.int.injEq, Option.some.injEq]

theorem apply_integers_least_power : pow.unbounded? (-2) 63 = some (-2 ^ 63) ∧
    pow.apply (.int (-2)) (.int 63) = .ok (.int Int64.minValue) :=
  ⟨rfl, ((apply_integers (m := -2) (n := 63) rfl rfl rfl).1 _).mpr ⟨rfl, rfl⟩⟩

/-- The least integer leaves nothing when it is divided by minus one, and this does not come out as
an integer. -/
theorem not_integer_of_fits : ¬∀ (operator : BinaryOperator) (left right : Value) (m n k : Int64),
    left.number? = some (.int m) → right.number? = some (.int n) →
    operator.unbounded? m.toInt n.toInt = some k.toInt →
    operator.apply left right = .ok (.int k) := by
  intro exact
  have divides : DividesDown Int64.minValue.toInt (-1) (2 ^ 63) 0 :=
    ⟨by decide, by decide, .inl rfl⟩
  have defined : mod.unbounded? Int64.minValue.toInt (-1) = some 0 := by
    rw [unbounded?, if_neg (by decide), ← divides.remainder_eq]
  obtain ⟨checked, approximate, applied, lost⟩ :=
    @exists_arithmetic (.int Int64.minValue) (.int (-1)) _ _ mod 0 rfl rfl defined
  rw [if_pos (by decide)] at lost
  have whole := exact mod (.int Int64.minValue) (.int (-1)) _ _ 0 rfl rfl defined
  rw [applied, arithmetic_integers mod checked approximate rfl rfl, lost] at whole
  cases whole

end Operands

/-- The floored quotient and remainder are integers that belong together, and each is the result of
rounding towards zero, corrected exactly or not at all. -/
theorem floorDiv_mod {l r : Int64} (nonzero : r ≠ 0) (fits : ¬(l = Int64.minValue ∧ r = -1)) :
    ∃ q m : Int64, floorDiv.apply (.int l) (.int r) = .ok (.int q) ∧
      mod.apply (.int l) (.int r) = .ok (.int m) ∧
      l.toInt = q.toInt * r.toInt + m.toInt ∧ |m.toInt| < |r.toInt| ∧
      (m = 0 ∨ m.toInt.sign = r.toInt.sign) ∧ q.toInt = ⌊(l.toInt : ℚ) / r.toInt⌋ ∧
      ((q.toInt = l.toInt.tdiv r.toInt ∧ m.toInt = l.toInt.tmod r.toInt) ∨
        (q.toInt = l.toInt.tdiv r.toInt - 1 ∧ m.toInt = l.toInt.tmod r.toInt + r.toInt)) := by
  have nonzero' : r.toInt ≠ 0 := fun zero => nonzero (Int64.toInt_inj.mp zero)
  have fits' : ¬(l.toInt = -2 ^ 63 ∧ r.toInt = -1) := fun ⟨least, unit⟩ =>
    fits ⟨Int64.toInt_inj.mp least, Int64.toInt_inj.mp unit⟩
  obtain ⟨q, m, divided, remaining, divides, steps⟩ := exists_floorQuotient? nonzero' fits'
  refine ⟨q, m, ?_, ?_, divides.sum, divides.size, ?_, divides.quotient_eq_floor, steps⟩
  · change floorDiv.dividing _ _ _ = _
    rw [dividing_of_ne_zero _ rfl nonzero', arithmetic_integers _ _ _ rfl rfl, divided]
  · change mod.dividing _ _ _ = _
    rw [dividing_of_ne_zero _ rfl nonzero', arithmetic_integers _ _ _ rfl rfl, remaining]
  · exact divides.side.imp_left fun zero => Int64.toInt_inj.mp zero

theorem floorDiv_mod_of_neg : floorDiv.apply (.int (-7)) (.int 2) = .ok (.int (-4)) ∧
    mod.apply (.int (-7)) (.int 2) = .ok (.int 1) := by
  obtain ⟨q, m, divided, remaining, -, -, side, -, ⟨-, mEq⟩ | ⟨qEq, mEq⟩⟩ :=
    floorDiv_mod (l := -7) (r := 2) (by decide) (by decide)
  · obtain rfl : m = -1 := Int64.toInt_inj.mp mEq
    exact absurd side (by decide)
  · obtain rfl : q = -4 := Int64.toInt_inj.mp qEq
    obtain rfl : m = 1 := Int64.toInt_inj.mp mEq
    exact ⟨divided, remaining⟩

end BinaryOperator

end Stencil
