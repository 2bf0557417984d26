import Mathlib.Algebra.Order.Group.Nat
import Stencil.Operator.Meaning
import Stencil.Proofs.Result

/-! # Repeated sequences

A text or a list multiplied by an integer, on either side, is that many copies of it in a row, or
nothing if the integer is negative, as long as the copies stay within `2 ^ 24` bytes or items. What
would be larger is refused before it is built, `BinaryOperator.mul_sequence`.
-/

namespace Stencil

namespace Value

/-- The size of a sequence: the bytes of a text, or the items of a list. -/
def sequenceSize? : Value → Option Nat
  | .str text => some text.utf8ByteSize
  | .list items => some items.length
  | _ => none

/-- A sequence a number of times in a row. -/
def copies (count : Nat) : Value → Value
  | .str text => .str (String.ofList (List.replicate count text.toList).flatten)
  | .list items => .list (List.replicate count items).flatten
  | value => value

end Value

namespace BinaryOperator

@[simp] theorem toList_repeatText (text : String) (count : Nat) :
    (repeatText text count).toList = (List.replicate count text.toList).flatten := by
  rw [repeatText]
  induction count with
  | zero => rfl
  | succ count ih =>
    rw [Nat.repeat, String.toList_append, ih, List.replicate_succ', List.flatten_append,
      List.flatten_singleton]

@[simp] theorem utf8ByteSize_repeatText (text : String) (count : Nat) :
    (repeatText text count).utf8ByteSize = text.utf8ByteSize * count := by
  rw [repeatText]
  induction count with
  | zero => rfl
  | succ count ih =>
    rw [Nat.repeat, String.utf8ByteSize_append, ih, Nat.mul_succ]

private theorem copies_str (text : String) (count : Nat) :
    Value.copies count (.str text) = .str (repeatText text count) := by
  rw [Value.copies, ← toList_repeatText, String.ofList_toList]

section Sequence

variable {sequence : Value} {size : Nat}

private theorem sequenceSize?_copies (isSequence : sequence.sequenceSize? = some size)
    (count : Nat) : (sequence.copies count).sequenceSize? = some (size * count) := by
  cases sequence <;> cases isSequence
  case str text => rw [copies_str, Value.sequenceSize?, utf8ByteSize_repeatText]
  case list items =>
    rw [Value.copies, Value.sequenceSize?, List.length_flatten, List.map_replicate,
      List.sum_replicate_nat, Nat.mul_comm]

/-- Copies of an empty sequence are empty, so their number does not matter. -/
private theorem copies_of_size_zero (isSequence : sequence.sequenceSize? = some 0) (count : Nat) :
    sequence.copies count = sequence.copies 0 := by
  cases sequence <;> try cases isSequence
  case str text =>
    obtain rfl : text = "" := String.utf8ByteSize_eq_zero_iff.mp (Option.some.inj isSequence)
    simp [Value.copies]
  case list items =>
    obtain rfl : items = [] := List.length_eq_zero_iff.mp (Option.some.inj isSequence)
    simp [Value.copies]

/-- The sequence is repeated as often as `repeatCount` says, on either side of the integer. -/
private theorem apply_mul_eq (isSequence : sequence.sequenceSize? = some size) (n : Int64) :
    mul.apply sequence (.int n) = (repeatCount size n).map sequence.copies ∧
      mul.apply (.int n) sequence = (repeatCount size n).map sequence.copies := by
  cases sequence <;> cases isSequence
  case str text =>
    have repeated : repeatStr text n =
        (repeatCount text.utf8ByteSize n).map (Value.str text).copies := by
      rw [repeatStr]
      cases repeatCount text.utf8ByteSize n with
      | error e => rfl
      | ok count => exact congrArg Except.ok (copies_str text count).symm
    exact ⟨repeated, repeated⟩
  case list items =>
    have repeated : repeatList items n =
        (repeatCount items.length n).map (Value.list items).copies := by
      rw [repeatList]
      cases repeatCount items.length n <;> rfl
    exact ⟨repeated, repeated⟩

/-- An integer times a sequence is the sequence repeated, if this has at most `2 ^ 24` bytes or
items, and fails otherwise. An empty sequence and an integer that is not positive give an empty
sequence. -/
theorem mul_sequence {count : Nat} {n : Int64} (isSequence : sequence.sequenceSize? = some size)
    (isCount : (count : Int) = max n.toInt 0) :
    mul.apply (.int n) sequence = mul.apply sequence (.int n) ∧
    mul.apply sequence (.int n) =
      (if size * count ≤ 2 ^ 24 then .ok (sequence.copies count)
      else .error (.valueTooLarge "*" (2 ^ 24))) ∧
    (sequence.copies count).sequenceSize? = some (size * count) ∧
    (size = 0 ∨ n.toInt ≤ 0 → mul.apply sequence (.int n) = .ok (sequence.copies 0) ∧
      (sequence.copies 0).sequenceSize? = some 0) := by
  obtain ⟨right, left⟩ := apply_mul_eq isSequence n
  have counted : n.toInt.toNat = count := by omega
  have bounded : mul.apply sequence (.int n) =
      if size * count ≤ 2 ^ 24 then .ok (sequence.copies count)
      else .error (.valueTooLarge "*" (2 ^ 24)) := by
    rw [right, repeatCount, counted]
    by_cases empty : size = 0
    · rw [if_pos empty, empty, Nat.zero_mul, if_pos (Nat.zero_le _)]
      exact congrArg Except.ok (copies_of_size_zero (empty ▸ isSequence) count).symm
    · rw [if_neg empty]
      exact apply_ite (Except.map sequence.copies) _ _ _
  refine ⟨left.trans right.symm, bounded, sequenceSize?_copies isSequence count, fun empty => ?_⟩
  have nothing : size * count = 0 ∧ sequence.copies count = sequence.copies 0 := by
    rcases empty with rfl | notPositive
    · exact ⟨Nat.zero_mul count, copies_of_size_zero isSequence count⟩
    · obtain rfl : count = 0 := by omega
      exact ⟨Nat.mul_zero size, rfl⟩
  rw [bounded, nothing.1, nothing.2, if_pos (Nat.zero_le _)]
  exact ⟨rfl, sequenceSize?_copies isSequence 0⟩

theorem mul_sequence_largest_count :
    mul.apply (.int Int64.maxValue) (.list [.int 1, .int 2]) =
        .error (.valueTooLarge "*" (2 ^ 24)) ∧
      mul.apply (.str "") (.int Int64.maxValue) = .ok (.str "") := by
  have isCount : ((2 ^ 63 - 1 : Nat) : Int) = max Int64.maxValue.toInt 0 := by decide
  obtain ⟨swapped, bounded, -, -⟩ := @mul_sequence (.list [.int 1, .int 2]) 2 _ _ rfl isCount
  obtain ⟨-, -, -, empty⟩ := @mul_sequence (.str "") 0 _ _ rfl isCount
  exact ⟨swapped.trans (bounded.trans (if_neg (by decide))), (empty (.inl rfl)).1⟩

end Sequence

end BinaryOperator

end Stencil
