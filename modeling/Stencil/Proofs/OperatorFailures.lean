import Stencil.Operator.Meaning
import Stencil.Proofs.Result

/-! # Failures of operators

An operator fails because it does not take its operands, because it would divide by zero, or because
its result would be too large, and in no other way: `BinaryOperator.failsWith_apply`.
-/

namespace Stencil

open Result

/-- A failure to compute an operator on its operands. -/
def Error.IsOperatorFailure : Error → Prop
  | .unsupportedOperand _ _ _ | .divisionByZero _ | .valueTooLarge _ _ => True
  | _ => False

namespace BinaryOperator

variable (operator : BinaryOperator) (left right : Value)

private theorem failsWith_arithmetic (exact : Int → Int → Option Int64)
    (approximate : Float → Float → Float) :
    FailsWith Error.IsOperatorFailure (operator.arithmetic exact approximate left right) := by
  rw [arithmetic]
  split
  · split <;> trivial
  · trivial
  · trivial

private theorem failsWith_dividing {quotient : Result Value}
    (fine : FailsWith Error.IsOperatorFailure quotient) :
    FailsWith Error.IsOperatorFailure (operator.dividing left right quotient) := by
  rw [dividing]
  split
  · trivial
  · exact fine

private theorem failsWith_ordered (test : Ordering → Bool) :
    FailsWith Error.IsOperatorFailure (operator.ordered test left right) := by
  rw [ordered]
  split <;> trivial

private theorem failsWith_repeatCount (size : Nat) (count : Int64) :
    FailsWith Error.IsOperatorFailure (repeatCount size count) := by
  rw [repeatCount]
  split
  · trivial
  · split <;> trivial

private theorem failsWith_applyMul : FailsWith Error.IsOperatorFailure (applyMul left right) := by
  rw [applyMul.eq_def]
  split
  all_goals first
    | exact (failsWith_repeatCount _ _).bind fun _ => trivial
    | exact failsWith_arithmetic ..

theorem failsWith_apply : FailsWith Error.IsOperatorFailure (operator.apply left right) := by
  cases operator with
  | add =>
    rw [apply, applyAdd.eq_def]
    split
    · trivial
    · trivial
    · exact failsWith_arithmetic ..
  | mul => exact failsWith_applyMul left right
  | sub | pow =>
    rw [apply]
    exact failsWith_arithmetic ..
  | div | floorDiv | mod => exact failsWith_dividing _ _ _ (failsWith_arithmetic ..)
  | greater | greaterEqual | less | lessEqual => exact failsWith_ordered ..
  | contained =>
    rw [apply, applyContained.eq_def]
    split <;> trivial
  | equal | unequal | and | or => trivial

end BinaryOperator

end Stencil
