import Stencil.Proofs.OutlineParts

/-! # Where marks stand

The position of a mark is the place behind everything that stands in front of it,
`Template.position_eq_advanceBy`. A tag of the body of a section, or of the body without the blanks
at its ends, is a tag of the template around it, as many characters further behind as stand in
front of the body: `Template.TagStandsAt.ofSection` and `Template.TagStandsAt.ofTrim`. So the line
and the column of a place in a body are those in the template only if the body starts in the
first line and the place does not, `Position.samePlace_append_iff`.
-/

namespace Stencil

namespace Position

variable {text : List Char}

@[simp] theorem line_advanceBy (position : Position) (text : List Char) :
    (position.advanceBy text).line = position.line + text.count '\n' := by
  induction text generalizing position with
  | nil => rfl
  | cons c rest ih =>
    change ((position.advance c).advanceBy rest).line = _
    rw [ih, advance, List.count_cons]
    by_cases newline : c = '\n'
    · simp only [newline, if_true, beq_self_eq_true]
      omega
    · simp [newline]

/-- In one line the column counts the characters. -/
theorem column_advanceBy_of_not_mem (position : Position) (oneLine : '\n' ∉ text) :
    (position.advanceBy text).column = position.column + text.length := by
  induction text generalizing position with
  | nil => rfl
  | cons c rest ih =>
    rw [List.mem_cons, not_or] at oneLine
    change ((position.advance c).advanceBy rest).column = _
    rw [ih _ oneLine.2, advance, if_neg (Ne.symm oneLine.1), List.length_cons, Nat.add_assoc,
      Nat.add_comm 1]

/-- Behind the end of a line it does not matter in which column the line started. -/
private theorem column_advanceBy_of_mem (position other : Position) (ends : '\n' ∈ text) :
    (position.advanceBy text).column = (other.advanceBy text).column := by
  induction text generalizing position other with
  | nil => cases ends
  | cons c rest ih =>
    change ((position.advance c).advanceBy rest).column =
      ((other.advance c).advanceBy rest).column
    by_cases later : '\n' ∈ rest
    · exact ih _ _ later
    · have newline : c = '\n' := ((List.mem_cons.mp ends).resolve_right later).symm
      rw [column_advanceBy_of_not_mem _ later, column_advanceBy_of_not_mem _ later, advance,
        advance, if_pos newline, if_pos newline]

/-- Two places in the same line and the same column. -/
def SamePlace (position other : Position) : Prop :=
  position.line = other.line ∧ position.column = other.column

/-- More text in front of a place moves it to another line or another column, except that the last
line in front of the place may be the first one behind the added text. -/
theorem samePlace_append_iff (position : Position) (front text : List Char) :
    SamePlace (position.advanceBy text) (position.advanceBy (front ++ text)) ↔
      front = [] ∨ '\n' ∉ front ∧ '\n' ∈ text := by
  rw [SamePlace, advanceBy_append, line_advanceBy, line_advanceBy, line_advanceBy]
  by_cases sameLine : '\n' ∈ front
  · have counted : 0 < front.count '\n' := List.count_pos_iff.mpr sameLine
    have filled : front ≠ [] := List.ne_nil_of_mem sameLine
    simp only [sameLine, filled, not_true_eq_false, false_and, or_self, iff_false, not_and]
    omega
  · rw [List.count_eq_zero_of_not_mem sameLine]
    by_cases ends : '\n' ∈ text
    · simp [sameLine, ends, column_advanceBy_of_mem position (position.advanceBy front) ends]
    · rw [column_advanceBy_of_not_mem _ ends, column_advanceBy_of_not_mem _ ends,
        column_advanceBy_of_not_mem _ sameLine]
      simp [ends]

end Position

namespace Template

/-- A mark stands behind all the pieces in front of it. -/
theorem position_eq_advanceBy {position : Position} {text : List Char} {before after : List Piece}
    {mark : Mark} (cut : piecesFrom position text = before ++ .mark mark :: after) :
    mark.position = position.advanceBy (before.flatMap Piece.source) := by
  fun_induction piecesFrom position text generalizing before with
  | case1 => simp at cut
  | case2 position c rest found behind isMark ih =>
    have here := position_of_markAt? isMark
    cases before with
    | nil =>
      cases cut
      exact here
    | cons first later =>
      obtain ⟨rfl, laterCut⟩ := List.cons.inj cut
      rw [ih laterCut, List.flatMap_cons, Position.advanceBy_append, Mark.stop, here]
      rfl
  | case3 position c rest nothing ih =>
    obtain ⟨inner, rfl, innerCut⟩ := exists_of_consText_eq_append cut
    rw [flatMap_source_consText, ih innerCut]
    rfl

@[simp] theorem flatMap_source_unplaced (found : List Piece) :
    (found.map Piece.unplaced).flatMap Piece.source = found.flatMap Piece.source := by
  induction found with
  | nil => rfl
  | cons piece rest ih =>
    rw [List.map_cons, List.flatMap_cons, List.flatMap_cons, ih]
    cases piece <;> rfl

/-- Where a text stands does not matter to how it is cut at a mark. -/
private theorem exists_cut {position : Position} {text : List Char} {before after : List Piece}
    {mark : Mark} (cut : piecesFrom position text = before ++ .mark mark :: after)
    (other : Position) : ∃ front found rest,
      piecesFrom other text = front ++ .mark found :: rest ∧
        front.flatMap Piece.source = before.flatMap Piece.source ∧
        found.kind = mark.kind ∧ found.name = mark.name := by
  have same := unplaced_piecesFrom other position text
  rw [cut, List.map_append, List.map_cons] at same
  obtain ⟨front, behind, split, sameFront, sameBehind⟩ := List.map_eq_append_iff.mp same
  obtain ⟨piece, rest, rfl, sameMark, -⟩ := List.map_eq_cons_iff.mp sameBehind
  cases piece with
  | text chars => cases sameMark
  | mark found =>
    have sameKind : found.unplaced.kind = mark.unplaced.kind :=
      congrArg Mark.kind (Piece.mark.inj sameMark)
    have sameName : found.unplaced.name = mark.unplaced.name :=
      congrArg Mark.name (Piece.mark.inj sameMark)
    refine ⟨front, found, rest, split, ?_, sameKind, sameName⟩
    rw [← flatMap_source_unplaced front, sameFront, flatMap_source_unplaced]

private theorem consText_append_mark (c : Char) (before : List Piece) (mark : Mark)
    (after : List Piece) :
    consText c (before ++ .mark mark :: after) = consText c before ++ .mark mark :: after := by
  cases before with
  | nil => rfl
  | cons piece rest => cases piece <;> rfl

private theorem foldr_consText_append_mark (chars : List Char) (before : List Piece) (mark : Mark)
    (after : List Piece) : chars.foldr consText (before ++ .mark mark :: after) =
      chars.foldr consText before ++ .mark mark :: after := by
  induction chars with
  | nil => rfl
  | cons c rest ih => rw [List.foldr_cons, ih, consText_append_mark, List.foldr_cons]

@[simp] theorem flatMap_source_foldr_consText (chars : List Char) (rest : List Piece) :
    (chars.foldr consText rest).flatMap Piece.source = chars ++ rest.flatMap Piece.source := by
  induction chars with
  | nil => rfl
  | cons c others ih =>
    rw [List.foldr_cons, flatMap_source_consText, ih, List.cons_append]

/-- Pieces that are put in front of others change nothing up to their last mark. -/
private theorem joinPieces_append_mark (before : List Piece) (mark : Mark)
    (after more : List Piece) :
    joinPieces (before ++ .mark mark :: after) more =
      joinPieces before [] ++ .mark mark :: joinPieces after more := by
  induction before with
  | nil => rfl
  | cons piece rest ih =>
    cases piece with
    | text chars =>
      rw [List.cons_append, joinPieces, ih, foldr_consText_append_mark, joinPieces]
    | mark found => rw [List.cons_append, joinPieces, ih, joinPieces, List.cons_append]

private theorem flatMap_source_joinPieces_nil (before : List Piece) :
    (joinPieces before []).flatMap Piece.source = before.flatMap Piece.source := by
  induction before with
  | nil => rfl
  | cons piece rest ih =>
    cases piece with
    | text chars =>
      rw [joinPieces, flatMap_source_foldr_consText, ih]
      rfl
    | mark found => rw [joinPieces, List.flatMap_cons, ih, List.flatMap_cons]

/-- A tag with a given name stands in a text, and the given characters are those in front of it. -/
def TagStandsAt (text front : List Char) (tag : String) : Prop :=
  ∃ before mark after, pieces text = before ++ .mark mark :: after ∧
    before.flatMap Piece.source = front ∧ mark.kind = .tag ∧ mark.name = tag

namespace TagStandsAt

variable {text front : List Char} {tag : String}

private theorem of_piecesFrom {position : Position} {before after : List Piece} {mark : Mark}
    (cut : piecesFrom position text = before ++ .mark mark :: after) (isTag : mark.kind = .tag) :
    TagStandsAt text (before.flatMap Piece.source) mark.name := by
  obtain ⟨front, found, rest, split, sameFront, sameKind, sameName⟩ := exists_cut cut .start
  exact ⟨front, found, rest, split, sameFront, sameKind.trans isTag, sameName⟩

private theorem exists_piecesFrom (stands : TagStandsAt text front tag) (position : Position) :
    ∃ before mark after, piecesFrom position text = before ++ .mark mark :: after ∧
      before.flatMap Piece.source = front ∧ mark.kind = .tag ∧ mark.name = tag := by
  obtain ⟨before, mark, after, cut, sameFront, isTag, named⟩ := stands
  obtain ⟨other, found, rest, split, sameOther, sameKind, sameName⟩ := exists_cut cut position
  exact ⟨other, found, rest, split, sameOther.trans sameFront, sameKind.trans isTag,
    sameName.trans named⟩

/-- Tags between two marks of a text are tags of the text. -/
theorem ofSection {before inside after : List Piece} {mark next : Mark}
    (cut : pieces text = before ++ .mark mark :: (inside ++ .mark next :: after))
    (stands : TagStandsAt (inside.flatMap Piece.source) front tag) :
    TagStandsAt text (before.flatMap Piece.source ++ mark.source ++ front) tag := by
  obtain ⟨passed, found, rest, split, rfl, isTag, rfl⟩ := stands.exists_piecesFrom mark.stop
  rw [piecesFrom_between cut] at split
  have whole : pieces text = before ++ .mark mark :: passed ++ .mark found ::
      (rest ++ .mark next :: after) := by
    rw [cut, split]
    simp
  have inText := of_piecesFrom whole isTag
  simpa [Piece.source] using inText

/-- Tags of a text without the blanks at its ends are tags of the text. -/
theorem ofTrim {lead body trail : List Char} (leadBlank : Text.isAllBlank lead = true)
    (trailBlank : Text.isAllBlank trail = true) (stands : TagStandsAt body front tag) :
    TagStandsAt (lead ++ body ++ trail) (lead ++ front) tag := by
  have plain : '\x7b' ∉ lead := fun member => by
    simpa using List.all_eq_true.mp (isUnmarked_of_isAllBlank leadBlank) _ member
  obtain ⟨before, mark, after, cut, rfl, isTag, rfl⟩ :=
    stands.exists_piecesFrom (Position.start.advanceBy lead)
  have whole : pieces (lead ++ body ++ trail) = lead.foldr consText (joinPieces before []) ++
      .mark mark :: joinPieces after
        (piecesFrom ((Position.start.advanceBy lead).advanceBy body) trail) := by
    rw [pieces, List.append_assoc, piecesFrom_plain_append plain,
      piecesFrom_append_of_isUnmarked _ _ (isUnmarked_of_isAllBlank trailBlank), cut,
      joinPieces_append_mark, foldr_consText_append_mark]
  have inText := of_piecesFrom whole isTag
  rwa [flatMap_source_foldr_consText, flatMap_source_joinPieces_nil] at inText

end TagStandsAt

end Template

end Stencil
