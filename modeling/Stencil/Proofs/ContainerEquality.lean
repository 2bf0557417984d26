import Mathlib.Data.List.Forall2
import Stencil.Proofs.ValueEquality

/-! # Equality of containers

Two lists are equal if their items are. Two maps are equal only if, beyond this, the types of their
values agree at all places, `BinaryOperator.equal_containers`: inside a map an integer is different
from the floating point number and from the truth value that it is equal to elsewhere.
-/

namespace Stencil

namespace Value

mutual

/-- Whether two values have the same types at all places of the lists and maps in them. -/
def alike : Value → Value → Bool
  | .list left, .list right => itemsAlike left right
  | .map left, .map right => entriesAlike left right
  | left, right => left.typeName == right.typeName

/-- Whether the items of two lists have the same types. -/
def itemsAlike : List Value → List Value → Bool
  | [], [] => true
  | a :: left, b :: right => a.alike b && itemsAlike left right
  | _, _ => false

/-- Whether the entries of two maps have the same keys and the same types of values. -/
def entriesAlike : List (String × Value) → List (String × Value) → Bool
  | [], [] => true
  | (k, a) :: left, (l, b) :: right => k == l && a.alike b && entriesAlike left right
  | _, _ => false

end

mutual

private theorem equal_and_alike_of_same {left right : Value} (same : left.same right = true) :
    left.equal right = true ∧ left.alike right = true := by
  cases same_iff.mp same with
  | null => exact ⟨rfl, rfl⟩
  | bool | int => exact ⟨beq_self_eq_true _, rfl⟩
  | float beq => exact ⟨beq, rfl⟩
  | str => exact ⟨same, rfl⟩
  | list items => exact items_equal_and_alike_of_same items
  | map entries => exact ⟨same, entriesAlike_of_same entries⟩

private theorem items_equal_and_alike_of_same : ∀ {left right : List Value},
    sameItems left right = true → equalItems left right = true ∧ itemsAlike left right = true
  | [], [], _ => ⟨rfl, rfl⟩
  | _ :: _, _ :: _, same => by
    obtain ⟨first, rest⟩ := Bool.and_eq_true_iff.mp same
    obtain ⟨equal, alike⟩ := equal_and_alike_of_same first
    obtain ⟨equal', alike'⟩ := items_equal_and_alike_of_same rest
    exact ⟨Bool.and_eq_true_iff.mpr ⟨equal, equal'⟩, Bool.and_eq_true_iff.mpr ⟨alike, alike'⟩⟩

private theorem entriesAlike_of_same : ∀ {left right : List (String × Value)},
    sameEntries left right = true → entriesAlike left right = true
  | [], [], _ => rfl
  | (_, _) :: _, (_, _) :: _, same => by
    obtain ⟨⟨rfl, value⟩, rest⟩ := sameEntries_cons_iff.mp same
    rw [entriesAlike, (equal_and_alike_of_same value).2, entriesAlike_of_same rest,
      beq_self_eq_true]
    rfl

end

/-- Equal numbers of one type have the same form: the integers of truth values tell them apart. -/
private theorem same_of_numbers {left right : Value} {m n : Number} (isLeft : left.number? = some m)
    (isRight : right.number? = some n) (equal : m.equal n = true)
    (alike : left.alike right = true) : left.same right = true := by
  cases left <;> cases isLeft <;> cases right <;> cases isRight <;> cases alike
  case bool a b => cases a <;> cases b <;> first | rfl | cases equal
  case int => exact equal
  case float => exact equal

mutual

private theorem same_of_equal_of_alike {left right : Value} (equal : left.equal right = true)
    (alike : left.alike right = true) : left.same right = true := by
  cases equal_iff.mp equal with
  | numbers isLeft isRight equal =>
    exact same_of_numbers isLeft isRight equal alike
  | list items => exact sameItems_of_equal_of_alike items alike
  | plain isLeft isRight same => exact same

private theorem sameItems_of_equal_of_alike : ∀ {left right : List Value},
    equalItems left right = true → itemsAlike left right = true → sameItems left right = true
  | [], [], _, _ => rfl
  | _ :: _, _ :: _, equal, alike => by
    obtain ⟨first, rest⟩ := Bool.and_eq_true_iff.mp equal
    obtain ⟨first', rest'⟩ := Bool.and_eq_true_iff.mp alike
    exact Bool.and_eq_true_iff.mpr
      ⟨same_of_equal_of_alike first first', sameItems_of_equal_of_alike rest rest'⟩

end

private theorem same_iff_equal_and_alike {left right : Value} :
    left.same right = true ↔ left.equal right = true ∧ left.alike right = true :=
  ⟨equal_and_alike_of_same, fun ⟨equal, alike⟩ => same_of_equal_of_alike equal alike⟩

private theorem equalItems_iff_forall₂ {left right : List Value} : equalItems left right = true ↔
    List.Forall₂ (fun a b => a.equal b = true) left right := by
  induction left generalizing right with
  | nil => cases right <;> simp [equalItems]
  | cons a left ih =>
    cases right with
    | nil => simp [equalItems]
    | cons b right => rw [equalItems, Bool.and_eq_true, ih, List.forall₂_cons]

private theorem sameEntries_iff_forall₂ {left right : List (String × Value)} :
    sameEntries left right = true ↔
      List.Forall₂ (fun e f => e.1 = f.1 ∧ e.2.same f.2 = true) left right := by
  induction left generalizing right with
  | nil => cases right <;> simp [sameEntries]
  | cons e left ih =>
    cases right with
    | nil => simp [sameEntries]
    | cons f right => rw [sameEntries_cons_iff, ih, List.forall₂_cons]

end Value

namespace BinaryOperator

/-- Two lists are equal if their items are, and two maps if they have the same keys and their
values are equal and have the same types at all places. -/
theorem equal_containers (items items' : List Value) (entries entries' : List (String × Value)) :
    (equal.apply (.list items) (.list items') = .ok (.bool true) ↔
      List.Forall₂ (fun a b => equal.apply a b = .ok (.bool true)) items items') ∧
    (equal.apply (.map entries) (.map entries') = .ok (.bool true) ↔
      List.Forall₂ (fun a b => a.1 = b.1 ∧ equal.apply a.2 b.2 = .ok (.bool true) ∧
        a.2.alike b.2 = true) entries entries') := by
  simp only [apply_equal_eq_true_iff, ← Value.same_iff_equal_and_alike]
  exact ⟨Value.equalItems_iff_forall₂, Value.sameEntries_iff_forall₂⟩

/-- The entries of two maps can be equal and the maps different. -/
theorem not_equal_of_equal_entries : ¬∀ left right : List (String × Value),
    left.map Prod.fst = right.map Prod.fst →
    List.Forall₂ (fun a b => equal.apply a b = .ok (.bool true)) (left.map Prod.snd)
      (right.map Prod.snd) →
    equal.apply (.map left) (.map right) = .ok (.bool true) := by
  intro uniform
  have equal := uniform [("k", .int 1)] [("k", .bool true)] rfl (.cons rfl .nil)
  exact absurd (apply_equal_eq_true_iff.mp equal) (by decide)

end BinaryOperator

end Stencil
