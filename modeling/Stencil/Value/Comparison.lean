import Stencil.Value

/-! # Comparing values

Truth values count as the integers zero and one, and an integer is compared with a floating point
number as a floating point number. Two lists are equal, or ordered, item by item under the same
rules. All other values are equal only if they have the same form: in particular the values of
two maps are compared strictly.
-/

namespace Stencil

/-- A number as the operators see it. -/
inductive Number
  | int (n : Int64)
  | float (x : Float)

namespace Number

/-- The number as a floating point number, rounded to nearest. -/
def toFloat : Number → Float
  | .int n => Float.ofInt n.toInt
  | .float x => x

/-- Integers are compared exactly, all other pairs as floating point numbers. -/
def equal : Number → Number → Bool
  | .int m, .int n => m == n
  | left, right => left.toFloat == right.toFloat

/-- The order of two floating point numbers, unless one of them is not a number. -/
def floatOrder? (x y : Float) : Option Ordering :=
  if x < y then some .lt
  else if x == y then some .eq
  else if y < x then some .gt
  else none

/-- The order of two numbers, by the rule of `equal`. -/
def order? : Number → Number → Option Ordering
  | .int m, .int n => some (compare m.toInt n.toInt)
  | left, right => floatOrder? left.toFloat right.toFloat

end Number

namespace Value

/-- The value as a number. -/
def number? : Value → Option Number
  | .int n => some (.int n)
  | .float x => some (.float x)
  | .bool b => some (.int (if b then 1 else 0))
  | _ => none

mutual

/-- Equality of form: values of different types differ, and maps are compared key by key. -/
def same : Value → Value → Bool
  | .null, .null => true
  | .bool a, .bool b => a == b
  | .int m, .int n => m == n
  | .float x, .float y => x == y
  | .str s, .str t => s == t
  | .list left, .list right => sameItems left right
  | .map left, .map right => sameEntries left right
  | _, _ => false

/-- Equality of form for the items of two lists. -/
def sameItems : List Value → List Value → Bool
  | [], [] => true
  | a :: left, b :: right => a.same b && sameItems left right
  | _, _ => false

/-- Equality of form for the entries of two maps. -/
def sameEntries : List (String × Value) → List (String × Value) → Bool
  | [], [] => true
  | (k, a) :: left, (l, b) :: right => k == l && a.same b && sameEntries left right
  | _, _ => false

end

mutual

/-- Equality as the operators see it. -/
def equal : Value → Value → Bool
  | .list left, .list right => equalItems left right
  | left, right =>
    match left.number?, right.number? with
    | some m, some n => m.equal n
    | _, _ => left.same right

/-- Equality of the items of two lists. -/
def equalItems : List Value → List Value → Bool
  | [], [] => true
  | a :: left, b :: right => a.equal b && equalItems left right
  | _, _ => false

end

mutual

/-- The order of two values: texts by code points, lists item by item, and numbers. -/
def order? : Value → Value → Option Ordering
  | .str s, .str t => some (compare s t)
  | .list left, .list right => itemsOrder? left right
  | left, right =>
    match left.number?, right.number? with
    | some m, some n => m.order? n
    | _, _ => none

/-- The order of two lists: that of the first items that differ, or else of the lengths. -/
def itemsOrder? : List Value → List Value → Option Ordering
  | [], [] => some .eq
  | [], _ :: _ => some .lt
  | _ :: _, [] => some .gt
  | a :: left, b :: right =>
    match a.order? b with
    | some .eq => itemsOrder? left right
    | decided => decided

end

end Value

end Stencil
