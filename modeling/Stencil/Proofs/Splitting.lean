import Mathlib.Data.List.Induction

/-! # Texts cut at a character

The parts between the separators of a text hold no separator and make up the text when they are
joined again. They are the only ones of which this is true: `isCutAt_iff`.
-/

namespace Stencil

section Splitting

variable {α : Type} [DecidableEq α] {separator : α} {text part : List α} {parts : List (List α)}

/-- The parts of a text between its separators; a text without any is a single part. -/
structure IsCutAt (separator : α) (text : List α) (parts : List (List α)) : Prop where
  filled : parts ≠ []
  apart : ∀ part ∈ parts, separator ∉ part
  joined : [separator].intercalate parts = text

theorem not_mem_of_mem_splitOn (member : part ∈ text.splitOn separator) : separator ∉ part := by
  induction text generalizing part with
  | nil =>
    rw [List.splitOn_nil, List.mem_singleton] at member
    rw [member]
    exact List.not_mem_nil
  | cons c rest ih =>
    rw [List.splitOn_cons_eq_if_modifyHead] at member
    split at member
    · rcases List.mem_cons.mp member with rfl | member
      · exact List.not_mem_nil
      · exact ih member
    · next differs =>
      cases split : rest.splitOn separator with
      | nil => exact (List.splitOn_ne_nil _ _ split).elim
      | cons first others =>
        rw [split, List.modifyHead_cons] at member
        rw [split] at ih
        rcases List.mem_cons.mp member with rfl | member
        · rw [List.mem_cons, not_or]
          exact ⟨fun same => differs (beq_iff_eq.mpr same.symm), ih List.mem_cons_self⟩
        · exact ih (List.mem_cons_of_mem _ member)

/-- A text is cut in one way. -/
theorem isCutAt_iff : IsCutAt separator text parts ↔ text.splitOn separator = parts := by
  constructor
  · rintro ⟨filled, apart, rfl⟩
    exact List.splitOn_intercalate separator apart filled
  · rintro rfl
    exact ⟨List.splitOn_ne_nil _ _, fun part member => not_mem_of_mem_splitOn member,
      List.intercalate_splitOn separator⟩

end Splitting

end Stencil
