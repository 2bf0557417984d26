import Stencil.Value.Comparison

/-! # Comparing numbers

The comparison of floating point numbers is the one that the floating point standard defines, and
exchanging the numbers turns their order around, `FloatingPoint.standardOrder?_swap`. This carries
over to the numbers of expressions, `Number.order?_swap`, and there equality and order agree,
`Number.equal_iff_order?`.
-/

namespace Stencil

namespace FloatingPoint

open Float.Model Float.Model.UnpackedFloat

private theorem compare_magnitude_swap (m n : Nat) (e k : Int) :
    (compare k e).then (compare n m) = ((compare e k).then (compare m n)).swap := by
  rw [Ordering.swap_then, ← Std.OrientedOrd.eq_swap, ← Std.OrientedOrd.eq_swap]

private theorem compare_swap (x y : UnpackedFloat) :
    y.compare x = (x.compare y).map Ordering.swap := by
  obtain s | _ | s | ⟨s, m, e, _⟩ := x <;> obtain t | _ | t | ⟨t, n, k, _⟩ := y <;>
    try cases s
  all_goals try cases t
  all_goals try rfl
  · exact congrArg (some ∘ Ordering.swap) (compare_magnitude_swap m n e k)
  · exact congrArg some (compare_magnitude_swap m n e k)

/-- The order that the standard gives two floating point numbers, unless one is not a number. -/
def standardOrder? (x y : Float) : Option Ordering :=
  x.toModel.unpack.compare y.toModel.unpack

private theorem lt_iff {x y : Float} : x < y ↔ standardOrder? x y = some .lt := by
  change decide ((standardOrder? x y == some .lt) = true) = true ↔ _
  rw [decide_eq_true_iff, beq_iff_eq]

private theorem beq_iff {x y : Float} : (x == y) = true ↔ standardOrder? x y = some .eq := by
  change (standardOrder? x y == some .eq) = true ↔ _
  exact beq_iff_eq

theorem standardOrder?_swap (x y : Float) :
    standardOrder? y x = (standardOrder? x y).map Ordering.swap :=
  compare_swap _ _

end FloatingPoint

namespace Number

open FloatingPoint

/-- Floating point numbers have the order of the standard. -/
theorem floatOrder?_eq (x y : Float) : floatOrder? x y = standardOrder? x y := by
  rw [floatOrder?]
  simp only [lt_iff, beq_iff, standardOrder?_swap x y]
  rcases standardOrder? x y with _ | _ | _ | _ <;> decide

theorem order?_swap (m n : Number) : n.order? m = (m.order? n).map Ordering.swap := by
  cases m with
  | int m =>
    cases n with
    | int n => exact congrArg some Std.OrientedOrd.eq_swap
    | float y => simp only [order?, floatOrder?_eq, ← standardOrder?_swap]
  | float x => cases n <;> simp only [order?, floatOrder?_eq, ← standardOrder?_swap]

/-- Numbers are equal exactly if neither comes before the other. -/
theorem equal_iff_order? {m n : Number} : m.equal n = true ↔ m.order? n = some .eq := by
  cases m with
  | int m =>
    cases n with
    | int n => simp [equal, order?, Int64.toInt_inj]
    | float y => simp only [equal, order?, floatOrder?_eq, beq_iff]
  | float x => cases n <;> simp only [equal, order?, floatOrder?_eq, beq_iff]

end Number

end Stencil
