/-! # The fewest decimal digits of a binary number

A positive floating point number stands for all reals that round to it. `Dyadic.shortest` gives
the decimal with the fewest digits among them, the nearest one if several have that many digits,
and the larger one of two that are equally near. All comparisons are exact, between products of
natural numbers.
-/

namespace Stencil.Decimal

/-- The number `significand * 2 ^ exponent`. The gap to the next smaller floating point number is
half the gap to the next larger one exactly when `narrowBelow` holds. -/
structure Dyadic where
  significand : Nat
  exponent : Int
  narrowBelow : Bool
  deriving DecidableEq, Repr

/-- The number `coefficient * 10 ^ exponent`. -/
structure Scaled where
  coefficient : Nat
  exponent : Int
  deriving DecidableEq, Repr

namespace Dyadic

/-- Decodes the exponent field and the fraction field of a finite number of double precision. -/
def ofFields (field fraction : Nat) : Dyadic :=
  if field = 0 then ⟨fraction, -1074, false⟩
  else ⟨Nat.pow 2 52 + fraction, (field : Int) - 1075, fraction = 0 && field ≠ 1⟩

/-- The lower end of the reals that round to the number, in quarters of its unit. -/
def lowerQuarters (number : Dyadic) : Nat :=
  4 * number.significand - if number.narrowBelow then 1 else 2

/-- The upper end of the reals that round to the number, in quarters of its unit. -/
def upperQuarters (number : Dyadic) : Nat :=
  4 * number.significand + 2

/-- Scales powers of ten so that they compare as natural numbers with `quarterWeight`. -/
def decimalWeight (number : Dyadic) (exponent : Int) : Nat :=
  Nat.pow 10 exponent.toNat * Nat.pow 2 (2 - number.exponent).toNat

/-- Scales quarters of the unit so that they compare as natural numbers with `decimalWeight`. -/
def quarterWeight (number : Dyadic) (exponent : Int) : Nat :=
  Nat.pow 2 (number.exponent - 2).toNat * Nat.pow 10 (-exponent).toNat

/-- Whether a decimal rounds to the number: it lies between the two ends, which belong to the
number when its significand is even. -/
def admits (number : Dyadic) (decimal : Scaled) : Bool :=
  let point := decimal.coefficient * number.decimalWeight decimal.exponent
  let lower := number.lowerQuarters * number.quarterWeight decimal.exponent
  let upper := number.upperQuarters * number.quarterWeight decimal.exponent
  if number.significand % 2 = 0 then lower ≤ point && point ≤ upper
  else lower < point && point < upper

/-- The largest multiple of a power of ten that is not above the number. -/
def below (number : Dyadic) (exponent : Int) : Scaled :=
  ⟨4 * number.significand * number.quarterWeight exponent / number.decimalWeight exponent,
    exponent⟩

/-- The smallest multiple of a power of ten that is above the number. -/
def above (number : Dyadic) (exponent : Int) : Scaled :=
  ⟨(number.below exponent).coefficient + 1, exponent⟩

/-- Whether the multiple below is strictly nearer than the multiple above. -/
def nearerBelow (number : Dyadic) (exponent : Int) : Bool :=
  2 * (4 * number.significand * number.quarterWeight exponent) <
    (2 * (number.below exponent).coefficient + 1) * number.decimalWeight exponent

/-- The multiple of a power of ten that rounds to the number and is nearest to it, if one does. -/
def onGrid? (number : Dyadic) (exponent : Int) : Option Scaled :=
  match number.admits (number.below exponent), number.admits (number.above exponent) with
  | true, true =>
    some (if number.nearerBelow exponent then number.below exponent else number.above exponent)
  | true, false => some (number.below exponent)
  | false, true => some (number.above exponent)
  | false, false => none

/-- An exponent of ten whose power is above the number: `0.30103` is above the logarithm of two. -/
def exponentBound (number : Dyadic) : Int :=
  ((number.significand.log2 : Int) + 1 + number.exponent) * 30103 / 100000 + 1

/-- The decimal on the coarsest grid that has one. Seventeen digits tell all numbers of double
precision apart, and the bound is at most two above the exponent of the leading digit, so twenty
grids suffice. -/
def shortest (number : Dyadic) : Scaled :=
  ((List.range 20).findSome? fun (step : Nat) => number.onGrid? (number.exponentBound - step)).getD
    (number.below (number.exponentBound - 20))

end Dyadic

end Stencil.Decimal
