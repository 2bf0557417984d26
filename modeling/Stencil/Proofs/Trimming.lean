import Stencil.Text.Blank

/-! # Trimming

Trimming a text cuts its front and its back separately. Blank characters around a text do not
matter to it, `trim_append_append`, and a text that is trimmed at its back alone is not trimmed
differently, `trim_trimEnd`.
-/

namespace Stencil.Text

/-- The text without the blank characters in front of it. -/
def trimStart (text : List Char) : List Char :=
  text.dropWhile isBlank

/-- The text without the blank characters behind it. -/
def trimEnd (text : List Char) : List Char :=
  (text.reverse.dropWhile isBlank).reverse

theorem trim_eq (text : List Char) : trim text = trimEnd (trimStart text) := rfl

@[simp] theorem isAllBlank_nil : isAllBlank [] = true := rfl

@[simp] theorem isAllBlank_append {front rest : List Char} :
    isAllBlank (front ++ rest) = (isAllBlank front && isAllBlank rest) :=
  List.all_append

@[simp] theorem isAllBlank_reverse (text : List Char) : isAllBlank text.reverse = isAllBlank text :=
  List.all_reverse

/-- Cutting the front leaves nothing of a blank text, and of no other. -/
@[simp] theorem trimStart_eq_nil {text : List Char} :
    trimStart text = [] ↔ isAllBlank text = true := by
  induction text with
  | nil => exact ⟨fun _ => rfl, fun _ => rfl⟩
  | cons c rest ih =>
    rw [trimStart, isAllBlank, List.dropWhile_cons, List.all_cons, ← trimStart, ← isAllBlank]
    split
    · next blank => rw [ih, blank, Bool.true_and]
    · next visible => simp [visible]

@[simp] theorem trimEnd_eq_nil {text : List Char} : trimEnd text = [] ↔ isAllBlank text = true := by
  rw [trimEnd, List.reverse_eq_nil_iff, ← isAllBlank_reverse]
  exact trimStart_eq_nil

theorem trimStart_append (front rest : List Char) : trimStart (front ++ rest) =
    if isAllBlank front then trimStart rest else trimStart front ++ rest := by
  have same : (front.dropWhile isBlank).isEmpty = isAllBlank front := by
    rw [Bool.eq_iff_iff, List.isEmpty_iff]
    exact trimStart_eq_nil
  rw [trimStart, List.dropWhile_append, same]
  rfl

theorem trimEnd_append (front rest : List Char) : trimEnd (front ++ rest) =
    if isAllBlank rest then trimEnd front else front ++ trimEnd rest := by
  have reversed := trimStart_append rest.reverse front.reverse
  rw [isAllBlank_reverse] at reversed
  rw [trimEnd, List.reverse_append, ← trimStart, reversed]
  split
  · rfl
  · rw [List.reverse_append, List.reverse_reverse]
    rfl

theorem trimStart_cons_of_not_isBlank {c : Char} (visible : isBlank c = false)
    (rest : List Char) : trimStart (c :: rest) = c :: rest := by
  rw [trimStart, List.dropWhile_cons, visible, if_neg Bool.false_ne_true]

theorem trimEnd_append_singleton {c : Char} (visible : isBlank c = false) (front : List Char) :
    trimEnd (front ++ [c]) = front ++ [c] := by
  rw [trimEnd, List.reverse_append, List.reverse_singleton, List.singleton_append, ← trimStart,
    trimStart_cons_of_not_isBlank visible]
  simp

/-- What is cut off at the back is blank. -/
theorem exists_append_trimEnd (text : List Char) :
    ∃ back, isAllBlank back = true ∧ text = trimEnd text ++ back := by
  refine ⟨(text.reverse.takeWhile isBlank).reverse, ?_, ?_⟩
  · rw [isAllBlank_reverse, isAllBlank]
    exact List.all_takeWhile
  · rw [trimEnd, ← List.reverse_append, List.takeWhile_append_dropWhile, List.reverse_reverse]

/-- What is cut off at both ends is blank. -/
theorem exists_append_trim (text : List Char) :
    ∃ front back, isAllBlank front = true ∧ isAllBlank back = true ∧
      text = front ++ trim text ++ back := by
  obtain ⟨back, blank, split⟩ := exists_append_trimEnd (trimStart text)
  refine ⟨text.takeWhile isBlank, back, List.all_takeWhile, blank, ?_⟩
  rw [List.append_assoc, trim_eq, ← split, trimStart, List.takeWhile_append_dropWhile]

theorem trim_infix (text : List Char) : trim text <:+: text := by
  obtain ⟨front, back, -, -, split⟩ := exists_append_trim text
  exact ⟨front, back, split.symm⟩

theorem trim_of_isAllBlank {text : List Char} (blank : isAllBlank text = true) :
    trim text = [] := by
  rw [trim_eq, trimStart_eq_nil.mpr blank]
  rfl

/-- Blank characters around a text do not matter to trimming. -/
theorem trim_append_append {front text back : List Char} (frontBlank : isAllBlank front = true)
    (backBlank : isAllBlank back = true) : trim (front ++ text ++ back) = trim text := by
  rw [trim_eq, List.append_assoc, trimStart_append, if_pos frontBlank, trimStart_append]
  split
  · next blank =>
    rw [trimStart_eq_nil.mpr backBlank, trim_of_isAllBlank blank]
    rfl
  · rw [trimEnd_append, if_pos backBlank, trim_eq]

@[simp] theorem trim_trimEnd (text : List Char) : trim (trimEnd text) = trim text := by
  obtain ⟨back, blank, split⟩ := exists_append_trimEnd text
  have nothing : isAllBlank [] = true := rfl
  calc trim (trimEnd text) = trim ([] ++ trimEnd text ++ back) :=
        (trim_append_append nothing blank).symm
    _ = trim text := by rw [List.nil_append, ← split]

section Word

variable {word : List Char} (filled : word ≠ []) (visible : ∀ c ∈ word, isBlank c = false)
include visible

private theorem trimStart_word : trimStart word = word := by
  cases word with
  | nil => rfl
  | cons c rest => exact trimStart_cons_of_not_isBlank (visible c List.mem_cons_self) rest

private theorem trimEnd_word : trimEnd word = word := by
  have reversed := trimStart_word fun c member => visible c (List.mem_reverse.mp member)
  rw [trimEnd, ← trimStart, reversed, List.reverse_reverse]

include filled

private theorem not_isAllBlank_word : isAllBlank word = false := by
  rw [Bool.eq_false_iff]
  intro blank
  rw [← trimStart_eq_nil, trimStart_word visible] at blank
  exact filled blank

/-- Trimming keeps the first word and what follows it. -/
theorem trim_word_append {before : List Char} (blank : isAllBlank before = true)
    (behind : List Char) : trim (before ++ word ++ behind) = word ++ trimEnd behind := by
  rw [trim_eq, List.append_assoc, trimStart_append, if_pos blank, trimStart_append,
    not_isAllBlank_word filled visible, if_neg Bool.false_ne_true, trimStart_word visible,
    trimEnd_append]
  split
  · next nothing => rw [trimEnd_word visible, trimEnd_eq_nil.mpr nothing, List.append_nil]
  · rfl

end Word

/-- A text is empty or starts with a blank character. -/
def StartsBlank (text : List Char) : Prop :=
  ∀ c, text.head? = some c → isBlank c = true

/-- A text is empty or ends with a blank character. -/
def EndsBlank (text : List Char) : Prop :=
  ∀ c, text.getLast? = some c → isBlank c = true

theorem startsBlank_trimEnd {text : List Char} (starts : StartsBlank text) :
    StartsBlank (trimEnd text) := by
  obtain ⟨back, -, split⟩ := exists_append_trimEnd text
  intro c head
  apply starts
  rw [split, List.head?_append, head]
  rfl

/-- The first word of a text ends in front of the first blank character. -/
theorem takeWhile_word_append {word behind : List Char} (visible : ∀ c ∈ word, isBlank c = false)
    (starts : StartsBlank behind) :
    (word ++ behind).takeWhile (fun c => !isBlank c) = word ∧
      (word ++ behind).dropWhile (fun c => !isBlank c) = behind := by
  have kept : ∀ c ∈ word, (!isBlank c) = true := fun c member => by rw [visible c member]; rfl
  rw [List.takeWhile_append_of_pos kept, List.dropWhile_append_of_pos kept]
  cases behind with
  | nil => exact ⟨List.append_nil word, rfl⟩
  | cons c rest =>
    have blank := starts c rfl
    simp [blank]

end Stencil.Text
