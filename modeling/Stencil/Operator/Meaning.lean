import Stencil.Error
import Stencil.Operator
import Stencil.Value.Comparison

/-! # What operators compute

Arithmetic on integers is exact while the result fits into 64 bits and is carried out in floating
point otherwise. Sequences are joined by `+` and repeated by `*` up to a fixed size. Comparisons
follow `Value.equal` and `Value.order?`; `and` and `or` give truth values and look at both sides.
-/

namespace Stencil

/-- The 64-bit integer of a number that fits. -/
def narrow? (n : Int) : Option Int64 :=
  if -Int.pow 2 63 ≤ n ∧ n < Int.pow 2 63 then some (Int64.ofInt n) else none

/-- The quotient rounded towards zero, if it fits. Nothing is divided by zero. -/
def quotient? (m n : Int) : Option Int64 :=
  if n = 0 then none else narrow? (m.tdiv n)

/-- The remainder that goes with the quotient rounded towards zero, if that quotient fits. -/
def remainder? (m n : Int) : Option Int64 :=
  (quotient? m n).bind fun _ => narrow? (m.tmod n)

/-- The quotient rounded down, if it fits: one less than the quotient rounded towards zero if
something remains and the operands differ in sign. -/
def floorQuotient? (m n : Int) : Option Int64 := do
  let quotient ← quotient? m n
  let remainder ← remainder? m n
  if remainder ≠ 0 ∧ decide (m < 0) ≠ decide (n < 0) then narrow? (quotient.toInt - 1)
  else return quotient

/-- The remainder that goes with the quotient rounded down, if the quotient rounded towards zero
fits: a remainder that differs from the divisor in sign is one divisor away from it. -/
def floorRemainder? (m n : Int) : Option Int64 := do
  let remainder ← remainder? m n
  if remainder ≠ 0 ∧ decide (remainder.toInt < 0) ≠ decide (n < 0) then
    narrow? (remainder.toInt + n)
  else return remainder

/-- A power with an exponent of at most 32 bits that is not negative, if it fits. A base beyond
one in size has no power that fits from the exponent 64 on, so none is computed there. -/
def power? (base exponent : Int) : Option Int64 :=
  if exponent < 0 ∨ Int.pow 2 32 ≤ exponent then none
  else if base.natAbs ≤ 1 then
    narrow? (if exponent = 0 then 1 else if exponent % 2 = 0 then base * base else base)
  else if 64 ≤ exponent then none
  else narrow? (base.pow exponent.toNat)

namespace BinaryOperator

/-- The failure of an operator that does not take these operands. -/
def unsupported (operator : BinaryOperator) (left right : Value) : Error :=
  .unsupportedOperand operator.symbol left.typeName (some right.typeName)

/-- Arithmetic on two numbers: exact on integers if the exact result fits, else in floating
point. -/
def arithmetic (operator : BinaryOperator) (exact : Int → Int → Option Int64)
    (approximate : Float → Float → Float) (left right : Value) : Result Value :=
  match left.number?, right.number? with
  | some (.int m), some (.int n) =>
    match exact m.toInt n.toInt with
    | some result => .ok (.int result)
    | none => .ok (.float (approximate (Number.int m).toFloat (Number.int n).toFloat))
  | some m, some n => .ok (.float (approximate m.toFloat n.toFloat))
  | _, _ => .error (operator.unsupported left right)

/-- The largest text, in bytes, and the largest list, in items, that repetition builds. -/
def repeatLimit : Nat := Nat.pow 2 24

/-- How often a sequence of a given size is repeated. A negative count is zero, and an empty
sequence stays empty. -/
def repeatCount (size : Nat) (count : Int64) : Result Nat :=
  if size = 0 then .ok 0
  else if size * count.toInt.toNat ≤ repeatLimit then .ok count.toInt.toNat
  else .error (.valueTooLarge mul.symbol repeatLimit)

/-- A text joined to itself a number of times. -/
def repeatText (text : String) (count : Nat) : String :=
  Nat.repeat (· ++ text) count ""

/-- A text repeated. -/
def repeatStr (text : String) (count : Int64) : Result Value := do
  return .str (repeatText text (← repeatCount text.utf8ByteSize count))

/-- A list repeated. -/
def repeatList (items : List Value) (count : Int64) : Result Value := do
  return .list (List.replicate (← repeatCount items.length count) items).flatten

/-- Sum of numbers, or two texts or two lists joined. -/
def applyAdd : Value → Value → Result Value
  | .str left, .str right => .ok (.str (left ++ right))
  | .list left, .list right => .ok (.list (left ++ right))
  | left, right => add.arithmetic (fun m n => narrow? (m + n)) (· + ·) left right

/-- Product of numbers, or a sequence repeated. -/
def applyMul : Value → Value → Result Value
  | .str text, .int count => repeatStr text count
  | .int count, .str text => repeatStr text count
  | .list items, .int count => repeatList items count
  | .int count, .list items => repeatList items count
  | left, right => mul.arithmetic (fun m n => narrow? (m * n)) (· * ·) left right

/-- Whether the value is a number equal to zero. -/
def isZero (value : Value) : Bool :=
  match value.number? with
  | some number => number.toFloat == 0.0
  | none => false

/-- Refuses to divide a number by zero. -/
def dividing (operator : BinaryOperator) (left right : Value) (quotient : Result Value) :
    Result Value :=
  if left.number?.isSome && isZero right then .error (.divisionByZero operator.symbol)
  else quotient

/-- The quotient in floating point. -/
def applyDiv (left right : Value) : Result Value :=
  div.dividing left right (div.arithmetic (fun _ _ => none) (· / ·) left right)

/-- The quotient rounded down. -/
def applyFloorDiv (left right : Value) : Result Value :=
  floorDiv.dividing left right
    (floorDiv.arithmetic floorQuotient? (fun x y => (x / y).floor) left right)

/-- The remainder of the quotient rounded down. -/
def applyMod (left right : Value) : Result Value :=
  mod.dividing left right
    (mod.arithmetic floorRemainder? (fun x y => x - y * (x / y).floor) left right)

/-- A comparison by order. -/
def ordered (operator : BinaryOperator) (test : Ordering → Bool) (left right : Value) :
    Result Value :=
  match left.order? right with
  | some ordering => .ok (.bool (test ordering))
  | none => .error (operator.unsupported left right)

/-- Whether the characters occur next to each other in the text. -/
def occursIn (sought : List Char) : List Char → Bool
  | [] => sought.isEmpty
  | c :: rest => sought.isPrefixOf (c :: rest) || occursIn sought rest

/-- Whether a text holds a text, a list an equal item, or a map a key. -/
def applyContained : Value → Value → Result Value
  | .str sought, .str text => .ok (.bool (occursIn sought.toList text.toList))
  | sought, .list items => .ok (.bool (items.any sought.equal))
  | .str key, .map entries => .ok (.bool (Table.findEntry? key entries).isSome)
  | sought, container => .error (contained.unsupported sought container)

/-- The result of a binary operator. -/
def apply : BinaryOperator → Value → Value → Result Value
  | .add, left, right => applyAdd left right
  | .sub, left, right => sub.arithmetic (fun m n => narrow? (m - n)) (· - ·) left right
  | .mul, left, right => applyMul left right
  | .div, left, right => applyDiv left right
  | .floorDiv, left, right => applyFloorDiv left right
  | .mod, left, right => applyMod left right
  | .pow, left, right => pow.arithmetic power? Float.pow left right
  | .equal, left, right => .ok (.bool (left.equal right))
  | .unequal, left, right => .ok (.bool (!left.equal right))
  | .greater, left, right => greater.ordered Ordering.isGT left right
  | .greaterEqual, left, right => greaterEqual.ordered Ordering.isGE left right
  | .less, left, right => less.ordered Ordering.isLT left right
  | .lessEqual, left, right => lessEqual.ordered Ordering.isLE left right
  | .contained, left, right => applyContained left right
  | .and, left, right => .ok (.bool (left.isTruthy && right.isTruthy))
  | .or, left, right => .ok (.bool (left.isTruthy || right.isTruthy))

end BinaryOperator

/-- The value of a constant. -/
def Constant.value : Constant → Value
  | .pi => .float (Float.ofBits 0x400921FB54442D18)
  | .truth => .bool true
  | .falsity => .bool false
  | .nothing => .null

/-- The negation of a value's truth. -/
def Value.negated (value : Value) : Value :=
  .bool (!value.isTruthy)

end Stencil
