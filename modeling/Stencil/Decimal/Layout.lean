import Stencil.Decimal.Numeral
import Stencil.Decimal.Shortest

/-! # Layouts of floating point text

Which digits a number is written with is settled by `Dyadic.shortest`. A `Layout` holds what a
format decides on top of that: which numbers are written with an exponent, when a whole number
ends in `.0`, and the text for a value that is not a number.
-/

namespace Stencil.Decimal

/-- The decisions of one format. Both tests are given the exponent of ten of the leading digit. -/
structure Layout where
  /-- Written as a leading digit, the other digits after a point, and an exponent of ten. -/
  scientific : Int → Bool
  /-- A whole number written by position ends in `.0`. -/
  pointZero : Int → Bool
  notANumber : String

namespace Layout

/-- Digits with an exponent, such as `1.5e-7` or `1e16`. -/
def scientificText (leading : Int) : List Char → List Char
  | [] => []
  | [first] => first :: 'e' :: (integerText leading).toList
  | first :: rest => first :: '.' :: rest ++ 'e' :: (integerText leading).toList

/-- Digits by position: the coefficient moved by the exponent, filled up with zeros. -/
def positionalText (layout : Layout) (coefficient : List Char) (exponent leading : Int) :
    List Char :=
  if 0 ≤ exponent then
    coefficient ++ List.replicate exponent.toNat '0' ++
      if layout.pointZero leading then ['.', '0'] else []
  else if 0 ≤ leading then
    coefficient.take (leading.toNat + 1) ++ '.' :: coefficient.drop (leading.toNat + 1)
  else
    '0' :: '.' :: List.replicate (-leading - 1).toNat '0' ++ coefficient

/-- The text of a decimal. -/
def decimalText (layout : Layout) (decimal : Scaled) : List Char :=
  let coefficient := digits decimal.coefficient
  let leading := (coefficient.length : Int) - 1 + decimal.exponent
  if layout.scientific leading then scientificText leading coefficient
  else layout.positionalText coefficient decimal.exponent leading

/-- The text of a finite number that is not negative, from its exponent and fraction fields. -/
def magnitudeText (layout : Layout) (field fraction : Nat) : List Char :=
  if field = 0 ∧ fraction = 0 then layout.decimalText ⟨0, 0⟩
  else layout.decimalText (Dyadic.ofFields field fraction).shortest

/-- The text of a floating point number. -/
def floatText (layout : Layout) (x : Float) : String :=
  let bits := x.toBits.toNat
  let field := bits / Nat.pow 2 52 % Nat.pow 2 11
  let fraction := bits % Nat.pow 2 52
  let sign := if bits / Nat.pow 2 63 = 0 then "" else "-"
  if field = 2047 then
    if fraction = 0 then sign ++ "inf" else layout.notANumber
  else sign ++ String.ofList (layout.magnitudeText field fraction)

end Layout

end Stencil.Decimal
