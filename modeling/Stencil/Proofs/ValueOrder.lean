import Stencil.Operator.Meaning
import Stencil.Proofs.NumberComparison

/-! # The order of values

Equality and order are computed each on its own, and they agree: where two values have an order,
they are equal exactly if neither comes before the other, `Value.equal_of_order?_eq_some`, and
exchanging them turns the order around, `Value.order?_swap`. So the comparison operators all answer
or all fail, and where they answer, they answer as in a total order,
`BinaryOperator.compare_or_unsupported`.
-/

namespace Stencil

namespace Value

section Plain

variable {left right : Value} (notTexts : ∀ s t, left = .str s → right = .str t → False)
  (notLists : ∀ l r, left = .list l → right = .list r → False)
include notTexts notLists

private theorem order?_of_numbers {m n : Number} (isLeft : left.number? = some m)
    (isRight : right.number? = some n) : left.order? right = m.order? n := by
  rw [order?.eq_3 left right notTexts notLists, isLeft, isRight]

private theorem order?_eq_none
    (notNumbers : ∀ m n, left.number? = some m → right.number? = some n → False) :
    left.order? right = none := by
  rw [order?.eq_3 left right notTexts notLists]
  split
  · next m n isLeft isRight => exact (notNumbers m n isLeft isRight).elim
  · rfl

end Plain

/-- Exchanging two values, or two lists, turns their order around. -/
theorem order?_swap_and_itemsOrder?_swap :
    (∀ left right : Value, right.order? left = (left.order? right).map Ordering.swap) ∧
      ∀ left right : List Value,
        itemsOrder? right left = (itemsOrder? left right).map Ordering.swap := by
  apply order?.mutual_induct
  -- two texts
  case case1 =>
    intro s t
    simp only [order?, Option.map_some, ← Std.OrientedOrd.eq_swap]
  -- two lists
  case case2 =>
    intro left right swapped
    simp only [order?, swapped]
  -- two numbers
  case case3 =>
    intro left right notTexts notLists m n isRight isLeft
    rw [order?_of_numbers notTexts notLists isLeft isRight,
      order?_of_numbers (fun s t h h' => notTexts t s h' h) (fun l r h h' => notLists r l h' h)
        isRight isLeft]
    exact Number.order?_swap m n
  -- values that have no order
  case case4 =>
    intro left right notTexts notLists notNumbers
    rw [order?_eq_none notTexts notLists notNumbers,
      order?_eq_none (fun s t h h' => notTexts t s h' h) (fun l r h h' => notLists r l h' h)
        fun m n h h' => notNumbers n m h' h]
    rfl
  -- two empty lists
  case case5 => rfl
  -- an empty list and a longer one
  case case6 => exact fun _ _ => rfl
  -- a list and an empty one
  case case7 => exact fun _ _ => rfl
  -- lists whose first items are of the same rank
  case case8 =>
    intro a left b right same swapped rest
    have exchanged : b.order? a = some .eq := by
      rw [swapped, same]
      rfl
    simp only [itemsOrder?, exchanged, same, rest]
  -- lists that their first items decide
  case case9 =>
    intro a left b right differ swapped
    rw [itemsOrder?, itemsOrder?, swapped]
    rcases decided : a.order? b with _ | _ | _ | _
    · rfl
    · rfl
    · exact (differ decided).elim
    · rfl

theorem order?_swap (left right : Value) :
    right.order? left = (left.order? right).map Ordering.swap :=
  order?_swap_and_itemsOrder?_swap.1 left right

/-- Values, or lists, that have an order are equal exactly if neither comes first. -/
theorem equal_and_equalItems_of_order? :
    (∀ (left right : Value) (ordering : Ordering), left.order? right = some ordering →
      left.equal right = (ordering == .eq)) ∧
    ∀ (left right : List Value) (ordering : Ordering), itemsOrder? left right = some ordering →
      equalItems left right = (ordering == .eq) := by
  apply order?.mutual_induct
  -- two texts
  case case1 =>
    intro s t ordering decided
    obtain rfl := Option.some.inj decided
    rw [Bool.eq_iff_iff, beq_iff_eq, Std.compare_eq_iff_eq]
    simp [equal, number?, same]
  -- two lists
  case case2 => exact fun left right agree => agree
  -- two numbers
  case case3 =>
    intro left right notTexts notLists m n isRight isLeft ordering decided
    rw [order?_of_numbers notTexts notLists isLeft isRight] at decided
    rw [equal.eq_2 left right notLists, isLeft, isRight, Bool.eq_iff_iff, beq_iff_eq]
    change m.equal n = true ↔ _
    rw [Number.equal_iff_order?, decided, Option.some.injEq]
  -- values that have no order
  case case4 =>
    intro left right notTexts notLists notNumbers ordering decided
    rw [order?_eq_none notTexts notLists notNumbers] at decided
    cases decided
  -- two empty lists
  case case5 =>
    rintro ordering ⟨⟩
    rfl
  -- an empty list and a longer one
  case case6 =>
    rintro head tail ordering ⟨⟩
    rfl
  -- a list and an empty one
  case case7 =>
    rintro head tail ordering ⟨⟩
    rfl
  -- lists whose first items are of the same rank
  case case8 =>
    intro a left b right same agree rest ordering decided
    rw [itemsOrder?, same] at decided
    rw [equalItems, agree _ same, rest ordering decided]
    rfl
  -- lists that their first items decide
  case case9 =>
    intro a left b right differ agree ordering decided
    have first : a.order? b = some ordering := by
      rw [itemsOrder?] at decided
      split at decided
      · next same => exact (differ same).elim
      · exact decided
    have apart : (ordering == .eq) = false := by
      rw [beq_eq_false_iff_ne]
      rintro rfl
      exact differ first
    rw [equalItems, agree ordering first, apart, Bool.false_and]

theorem equal_of_order?_eq_some {left right : Value} {ordering : Ordering}
    (decided : left.order? right = some ordering) : left.equal right = (ordering == .eq) :=
  equal_and_equalItems_of_order?.1 left right ordering decided

end Value

namespace BinaryOperator

section Ordered

variable {operator : BinaryOperator} {test : Ordering → Bool} {left right : Value}

private theorem ordered_eq_ok {ordering : Ordering} (decided : left.order? right = some ordering) :
    operator.ordered test left right = .ok (.bool (test ordering)) := by
  rw [ordered, decided]

private theorem ordered_eq_error (undecided : left.order? right = none) :
    operator.ordered test left right = .error (operator.unsupported left right) := by
  rw [ordered, undecided]

end Ordered

/-- Either two values are compared in both directions, and exactly one of less, equal and greater
holds, or all comparisons by order fail. -/
theorem compare_or_unsupported (left right : Value) :
    (∃ isLess isEqual isGreater : Bool, [isLess, isEqual, isGreater].count true = 1 ∧
      less.apply left right = .ok (.bool isLess) ∧
      equal.apply left right = .ok (.bool isEqual) ∧
      greater.apply left right = .ok (.bool isGreater) ∧
      lessEqual.apply left right = .ok (.bool (isLess || isEqual)) ∧
      greaterEqual.apply left right = .ok (.bool (isGreater || isEqual)) ∧
      greater.apply right left = .ok (.bool isLess) ∧
      less.apply right left = .ok (.bool isGreater)) ∨
    ∀ operator ∈ [less, lessEqual, greater, greaterEqual],
      operator.apply left right = .error (operator.unsupported left right) ∧
        operator.apply right left = .error (operator.unsupported right left) := by
  have swapped := Value.order?_swap left right
  cases decided : left.order? right with
  | none =>
    rw [decided, Option.map_none] at swapped
    right
    simp only [List.forall_mem_cons, apply, ordered_eq_error decided, ordered_eq_error swapped,
      true_and, List.not_mem_nil, false_implies, implies_true]
  | some ordering =>
    rw [decided, Option.map_some] at swapped
    left
    simp only [apply, ordered_eq_ok decided, ordered_eq_ok swapped,
      Value.equal_of_order?_eq_some decided]
    refine ⟨ordering.isLT, ordering == .eq, ordering.isGT, ?_⟩
    cases ordering <;> exact ⟨rfl, rfl, rfl, rfl, rfl, rfl, rfl, rfl⟩

end BinaryOperator

end Stencil
