import Stencil.Proofs.LexemePlaces

/-! # The positions in failures of reading

A failure of reading an expression names a character or an operator and the position at which it
stands. The position counts in the text that was being scanned. For an item of a list or the body
of a group that is the text of the item or the body alone, which stands further behind in the text
around it: what is named stands as many characters behind the reported position as there are in
front of the innermost text, `Expression.named_in_innermost_part`.
-/

namespace Stencil

namespace Expression

variable {delimiters : Delimiters} {error : Error}

/-- The part of a text in which scanning fails, and what stands in front of it: the part is the
text itself, or an item or a body in it, at any depth. -/
inductive FailsIn (delimiters : Delimiters) (error : Error) : String → List Char → String → Prop
  | scanning {text : String} (failed : (Lexeme.scan delimiters text).failure = some error) :
    FailsIn delimiters error text [] text
  | inside {text inner part : String} {before after front : List Char} {lexeme : Lexeme}
    (member : lexeme ∈ (Lexeme.scan delimiters text).lexemes) (listed : inner ∈ lexeme.inners)
    (stands : text.toList = before ++ inner.toList ++ after) (behind : before ≠ [])
    (fails : FailsIn delimiters error inner front part) :
    FailsIn delimiters error text (before ++ front) part

namespace FailsIn

variable {text part : String} {front : List Char}

theorem failure (fails : FailsIn delimiters error text front part) :
    (Lexeme.scan delimiters part).failure = some error := by
  induction fails with
  | scanning failed => exact failed
  | inside _ _ _ _ _ ih => exact ih

private theorem stands (fails : FailsIn delimiters error text front part) :
    ∃ after, text.toList = front ++ part.toList ++ after := by
  induction fails with
  | scanning failed => exact ⟨[], by simp⟩
  | @inside text inner part before after front lexeme member listed stands behind fails ih =>
    obtain ⟨later, same⟩ := ih
    exact ⟨later ++ after, by rw [stands, same]; simp⟩

end FailsIn

/-- A failure of reading is the failure of the text itself or of an inner text. -/
theorem read_eq_error {text : String} (failed : read delimiters text = .error error) :
    (Lexeme.scan delimiters text).failure = some error ∨
      ∃ lexeme ∈ (Lexeme.scan delimiters text).lexemes, ∃ inner ∈ lexeme.inners,
        read delimiters inner = .error error := by
  rw [read_eq] at failed
  rcases Result.bind_eq_error.mp failed with inside | ⟨tokens, -, ended⟩
  · obtain ⟨lexeme, member, lexemeFailed⟩ := Result.exists_of_mapM_eq_error inside
    exact .inr ⟨lexeme, member, Lexeme.exists_of_read_error lexemeFailed⟩
  · split at ended
    · next failure same =>
      cases ended
      exact .inl same
    · cases ended

/-- Inner texts are shorter, so following a failure inwards comes to an end. -/
theorem exists_failsIn (text : String) (failed : read delimiters text = .error error) :
    ∃ front part, FailsIn delimiters error text front part := by
  rcases read_eq_error failed with here | ⟨lexeme, member, inner, listed, innerFailed⟩
  · exact ⟨[], text, .scanning here⟩
  · have shorter := (Lexeme.isCut_of_mem_scan member listed).1
    obtain ⟨before, after, stands, behind⟩ :=
      ((Lexeme.standsIn_scan text).lexemes lexeme member).exists_append listed
    obtain ⟨front, part, fails⟩ := exists_failsIn inner innerFailed
    exact ⟨before ++ front, part, .inside member listed stands behind fails⟩
termination_by text.length

/-- What a failure names stands at its position in the innermost text that was being scanned, and
as many characters further behind as stand in front of that text in the whole one. The position is
that in the whole text if no item and no body in it fails. -/
theorem named_in_innermost_part {text : String} {position : Nat} {named : List Char}
    (failed : read delimiters text = .error error)
    (names : error.named? = some (position, named)) :
    (∃ front part, FailsIn delimiters error text front part ∧
      named <+: part.toList.drop position ∧
      named <+: text.toList.drop (front.length + position)) ∧
    ((∀ lexeme ∈ (Lexeme.scan delimiters text).lexemes, ∀ inner ∈ lexeme.inners,
        read delimiters inner ≠ .error error) →
      named <+: text.toList.drop position) := by
  have atPosition {part : String} (stopped : (Lexeme.scan delimiters part).failure = some error) :
      named <+: part.toList.drop position :=
    ((Lexeme.standsIn_scan part).failure error stopped).stands position named names
  constructor
  · obtain ⟨front, part, fails⟩ := exists_failsIn text failed
    obtain ⟨after, same⟩ := fails.stands
    have inPart := atPosition fails.failure
    refine ⟨front, part, fails, inPart, ?_⟩
    rw [same, List.append_assoc, List.drop_length_add_append, List.drop_append]
    exact List.prefix_append_of_prefix inPart
  · intro innersFine
    rcases read_eq_error failed with here | ⟨lexeme, member, inner, listed, innerFailed⟩
    · exact atPosition here
    · exact absurd innerFailed (innersFine lexeme member inner listed)

/-- In a group inside a list: the operator is the eighth character of the text, and the third one of
the body of the group. -/
theorem named_in_innermost_part_nested :
    read .standard "[1, (a ! b)]" = .error (.unknownOperator "!" 2) ∧
    ∃ front part, FailsIn .standard (.unknownOperator "!" 2) "[1, (a ! b)]" front part ∧
      ['!'] <+: part.toList.drop 2 ∧ ['!'] <+: "[1, (a ! b)]".toList.drop (front.length + 2) := by
  have failed : read .standard "[1, (a ! b)]" = .error (.unknownOperator "!" 2) := by decide +kernel
  exact ⟨failed, (named_in_innermost_part failed rfl).1⟩

/-- The position in the failure of an item is not one in the text around it. -/
theorem position_of_item_not_in_text :
    read .standard "[1, #]" = .error (.malformed ⟨some 1, .unexpectedCharacter '#'⟩) ∧
      "[1, #]".toList[1]? = some '1' ∧ "[1, #]".toList[4]? = some '#' := by
  decide

end Expression

end Stencil
