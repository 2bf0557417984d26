import Mathlib.Data.List.DropRight
import Stencil.Proofs.MarkPlaces

/-! # The scan for marks

The marks of a text are those that are found by looking for the next one again and again,
`Template.scan_finds_marks`. They stand one behind the other, each from an opener to the first
closer behind it, and the openers between them have no closer. So the text between two marks has,
on its own and without the blanks at its ends, just the marks that were found there:
`Template.placedMarks_between`.
-/

namespace Stencil

namespace Position

@[simp] theorem offset_advanceBy (position : Position) (text : List Char) :
    (position.advanceBy text).offset = position.offset + text.length := by
  induction text generalizing position with
  | nil => rfl
  | cons c rest ih =>
    have here : (position.advance c).offset = position.offset + 1 := by
      rw [advance]
      split <;> rfl
    change ((position.advance c).advanceBy rest).offset = _
    rw [ih, here, List.length_cons]
    omega

private theorem offset_advanceBy_start (text : List Char) :
    (start.advanceBy text).offset = text.length := by
  simp [start]

/-- The column counts the characters behind the last end of a line. -/
theorem column_advanceBy_start (text : List Char) :
    (start.advanceBy text).column = 1 + (text.rtakeWhile (· ≠ '\n')).length := by
  induction text using List.reverseRecOn with
  | nil => rfl
  | append_singleton front c ih =>
    rw [advanceBy_append, List.rtakeWhile_concat]
    change ((start.advanceBy front).advance c).column = _
    rw [advance]
    by_cases newline : c = '\n'
    · simp [newline]
    · simp only [newline, if_false, ih, ne_eq, not_false_eq_true, decide_true, if_true,
        List.length_append, List.length_singleton]
      omega

end Position

namespace Template

variable {kind : MarkKind} {text : List Char} {offset : Nat}

section OpenersAndClosers

/-- An opener stands at an offset of a text. -/
def OpensAt (kind : MarkKind) (text : List Char) (offset : Nat) : Prop :=
  kind.opener <+: text.drop offset

/-- A closer stands at an offset of a text. -/
def ClosesAt (kind : MarkKind) (text : List Char) (offset : Nat) : Prop :=
  [kind.closer.1, kind.closer.2] <+: text.drop offset

/-- What opens at an offset of a text has no closer anywhere behind it. -/
def IsUnmatchedAt (text : List Char) (offset : Nat) : Prop :=
  ∀ kind, OpensAt kind text offset → ∀ later, offset + 2 ≤ later → ¬ClosesAt kind text later

/-- A mark runs from an opener of the text to the first closer that lies behind the opener as a
whole, and its place is the one behind the text in front of it. -/
structure IsMarkOf (text : List Char) (mark : Mark) : Prop where
  opens : OpensAt mark.kind text mark.position.offset
  inner : (text.drop (mark.position.offset + 2)).take mark.inner.length = mark.inner
  closes : ClosesAt mark.kind text (mark.position.offset + 2 + mark.inner.length)
  closesFirst : ∀ offset, mark.position.offset + 2 ≤ offset → ClosesAt mark.kind text offset →
    mark.position.offset + 2 + mark.inner.length ≤ offset
  stop : mark.stop.offset = mark.position.offset + 2 + mark.inner.length + 2
  line : mark.position.line = 1 + (text.take mark.position.offset).count '\n'
  column : mark.position.column =
    1 + ((text.take mark.position.offset).rtakeWhile (· ≠ '\n')).length

/-- Marks that are all those of a text from an offset on: they are in order and do not overlap, and
what opens outside of them has no closer. -/
structure AreMarksFrom (text : List Char) (start : Nat) (marks : List Mark) : Prop where
  areMarks : ∀ mark ∈ marks, IsMarkOf text mark
  behind : ∀ mark ∈ marks, start ≤ mark.position.offset
  ordered : marks.Pairwise fun mark next => mark.stop.offset ≤ next.position.offset
  unmatched : ∀ offset, start ≤ offset →
    (∀ mark ∈ marks, ¬(mark.position.offset ≤ offset ∧ offset < mark.stop.offset)) →
    IsUnmatchedAt text offset

private theorem opensAt_append {front : List Char} :
    OpensAt kind (front ++ text) (front.length + offset) ↔ OpensAt kind text offset := by
  rw [OpensAt, List.drop_length_add_append, OpensAt]

private theorem closesAt_append {front : List Char} :
    ClosesAt kind (front ++ text) (front.length + offset) ↔ ClosesAt kind text offset := by
  rw [ClosesAt, List.drop_length_add_append, ClosesAt]

private theorem IsUnmatchedAt.append (unmatched : IsUnmatchedAt text offset) (front : List Char) :
    IsUnmatchedAt (front ++ text) (front.length + offset) := by
  intro kind opens later behind closes
  obtain ⟨more, rfl⟩ := Nat.exists_eq_add_of_le (Nat.le_of_add_right_le behind)
  rw [Nat.add_assoc] at closes behind
  exact unmatched kind (opensAt_append.mp opens) _ (by omega) (closesAt_append.mp closes)

/-- Where a closer stands, one is found there or further in front. -/
private theorem exists_breakAt?_of_prefix {closer : Char × Char}
    (closes : [closer.1, closer.2] <+: text.drop offset) :
    ∃ before behind, breakAt? closer text = some (before, behind) ∧ before.length ≤ offset := by
  induction text generalizing offset with
  | nil => simp at closes
  | cons first rest ih =>
    cases rest with
    | nil => cases offset <;> simp at closes
    | cons second others =>
      rw [breakAt?]
      split
      · exact ⟨[], others, rfl, Nat.zero_le _⟩
      · next notHere =>
        cases offset with
        | zero =>
          simp only [List.drop_zero, List.cons_prefix_cons, List.nil_prefix, and_true] at closes
          exact (notHere ⟨closes.1.symm, closes.2.symm⟩).elim
        | succ offset =>
          obtain ⟨before, behind, found, short⟩ := ih closes
          exact ⟨first :: before, behind, by rw [found]; rfl, Nat.succ_le_succ short⟩

@[simp] theorem length_opener (kind : MarkKind) : kind.opener.length = 2 := by
  cases kind <;> rfl

/-- What opens where no mark starts has no closer. -/
theorem isUnmatchedAt_of_markAt? {position : Position} (nothing : markAt? position text = none) :
    IsUnmatchedAt text 0 := by
  rintro kind ⟨rest, rfl⟩ later behind closes
  obtain ⟨more, rfl⟩ := Nat.exists_eq_add_of_le behind
  rw [Nat.zero_add, ← length_opener kind, closesAt_append] at closes
  obtain ⟨before, others, found, -⟩ := exists_breakAt?_of_prefix closes
  rw [markAt?_opener, closeMark?, found] at nothing
  cases nothing

/-- A mark that starts behind some text is a mark of the whole text. -/
theorem isMarkOf_of_markAt? {front behind : List Char} {mark : Mark}
    (placed : mark.position = Position.start.advanceBy front)
    (found : markAt? mark.position (mark.source ++ behind) = some (mark, behind)) :
    IsMarkOf (front ++ (mark.source ++ behind)) mark := by
  have offset : mark.position.offset = front.length := by
    rw [placed, Position.offset_advanceBy_start]
  obtain ⟨-, rest, split, closed⟩ := markAt?_eq_some.mp found
  have rest_eq : rest = mark.inner ++ [mark.kind.closer.1, mark.kind.closer.2] ++ behind := by
    rw [Mark.source, List.append_assoc, List.append_assoc] at split
    rw [List.append_assoc]
    exact (List.append_cancel_left split).symm
  have before : front ++ (mark.source ++ behind) = front ++ mark.kind.opener ++ rest := by
    rw [split, List.append_assoc]
  have length : (front ++ mark.kind.opener).length = mark.position.offset + 2 := by
    rw [List.length_append, length_opener, offset]
  refine ⟨?_, ?_, ?_, fun later wholly closes => ?_, ?_, ?_, ?_⟩
  · rw [OpensAt, offset, List.drop_left, split]
    exact List.prefix_append _ _
  · rw [before, ← length, List.drop_left, rest_eq, List.append_assoc, List.take_left]
  · rw [before, ← length, closesAt_append, ClosesAt, rest_eq, List.append_assoc, List.drop_left]
    exact List.prefix_append _ _
  · obtain ⟨more, rfl⟩ := Nat.exists_eq_add_of_le wholly
    rw [before, ← length, closesAt_append] at closes
    obtain ⟨inner, others, again, short⟩ := exists_breakAt?_of_prefix closes
    rw [closed] at again
    cases again
    omega
  · rw [Mark.stop, Position.offset_advanceBy, Mark.source, List.length_append, List.length_append,
      length_opener, ← Nat.add_assoc, ← Nat.add_assoc]
    rfl
  · rw [offset, List.take_left, placed, Position.line_advanceBy]
    rfl
  · rw [offset, List.take_left, placed, Position.column_advanceBy_start]

end OpenersAndClosers

section NextMark

/-- The first mark of a text that starts at a given place, and the text behind it. -/
def nextMark? (position : Position) : List Char → Option (Mark × List Char)
  | [] => none
  | c :: rest =>
    match markAt? position (c :: rest) with
    | some found => some found
    | none => nextMark? (position.advance c) rest

private theorem isUnmatchedAt_of_nextMark? {position : Position}
    (nothing : nextMark? position text = none) (offset : Nat) : IsUnmatchedAt text offset := by
  induction text generalizing position offset with
  | nil =>
    intro kind opens
    rw [OpensAt, List.drop_nil, List.prefix_nil] at opens
    cases kind <;> cases opens
  | cons c rest ih =>
    rw [nextMark?] at nothing
    split at nothing
    · cases nothing
    · next notHere =>
      cases offset with
      | zero => exact isUnmatchedAt_of_markAt? notHere
      | succ offset =>
        rw [Nat.add_comm]
        exact (ih nothing offset).append [c]

/-- What stands in front of the next mark opens nothing that has a closer. -/
theorem exists_of_nextMark? {position : Position} {behind : List Char} {mark : Mark}
    (found : nextMark? position text = some (mark, behind)) :
    ∃ front, text = front ++ (mark.source ++ behind) ∧ mark.position = position.advanceBy front ∧
      markAt? mark.position (mark.source ++ behind) = some (mark, behind) ∧
      ∀ offset < front.length, IsUnmatchedAt text offset := by
  induction text generalizing position with
  | nil => cases found
  | cons c rest ih =>
    rw [nextMark?] at found
    split at found
    · next here =>
      cases found
      refine ⟨[], append_of_markAt? here, position_of_markAt? here, ?_, nofun⟩
      rw [position_of_markAt? here, ← append_of_markAt? here, here]
    · next notHere =>
      obtain ⟨front, split, placed, starts, unmatched⟩ := ih found
      refine ⟨c :: front, by rw [split]; rfl, placed, starts, fun offset inFront => ?_⟩
      cases offset with
      | zero => exact isUnmatchedAt_of_markAt? notHere
      | succ offset =>
        rw [Nat.add_comm]
        exact (unmatched offset (Nat.lt_of_succ_lt_succ inFront)).append [c]

end NextMark

section Scan

/-- The marks that are found one after the other, up to the point where there is no next one. -/
inductive Scans : Position → List Char → List Mark → Prop
  | done {position : Position} {text : List Char} (nothing : nextMark? position text = none) :
      Scans position text []
  | next {position : Position} {text behind : List Char} {mark : Mark} {marks : List Mark}
      (found : nextMark? position text = some (mark, behind))
      (others : Scans mark.stop behind marks) : Scans position text (mark :: marks)

private theorem Scans.eq {position : Position} {marks others : List Mark}
    (scans : Scans position text marks) (again : Scans position text others) : marks = others := by
  induction scans generalizing others with
  | done nothing =>
    cases again with
    | done => rfl
    | next found => rw [nothing] at found; cases found
  | next found _ ih =>
    cases again with
    | done nothing => rw [found] at nothing; cases nothing
    | next foundAgain later =>
      rw [found] at foundAgain
      cases foundAgain
      rw [ih later]

private theorem areMarksFrom_nil {start : Nat}
    (unmatched : ∀ offset, start ≤ offset → IsUnmatchedAt text offset) :
    AreMarksFrom text start [] :=
  ⟨nofun, nofun, .nil, fun offset behind _ => unmatched offset behind⟩

/-- A mark in front of the marks behind it. -/
theorem AreMarksFrom.cons {start : Nat} {mark : Mark} {marks : List Mark}
    (isMark : IsMarkOf text mark) (behind : start ≤ mark.position.offset)
    (unmatched : ∀ offset, start ≤ offset → offset < mark.position.offset →
      IsUnmatchedAt text offset)
    (others : AreMarksFrom text mark.stop.offset marks) :
    AreMarksFrom text start (mark :: marks) := by
  have long := isMark.stop
  refine ⟨?_, ?_, List.pairwise_cons.mpr ⟨others.behind, others.ordered⟩, ?_⟩
  · exact List.forall_mem_cons.mpr ⟨isMark, others.areMarks⟩
  · refine List.forall_mem_cons.mpr ⟨behind, fun next member => ?_⟩
    have := others.behind next member
    omega
  · intro offset fromStart outside
    rw [List.forall_mem_cons] at outside
    obtain ⟨notHere, outside⟩ := outside
    rcases Nat.lt_or_ge offset mark.position.offset with front | inMark
    · exact unmatched offset fromStart front
    · exact others.unmatched offset (by omega) outside

/-- A scan that starts behind some text finds all marks that start there, each of which takes at
least four characters. -/
theorem Scans.areMarksFrom {position : Position} {marks : List Mark}
    (scans : Scans position text marks) (passed : List Char)
    (placed : position = Position.start.advanceBy passed) :
    AreMarksFrom (passed ++ text) passed.length marks ∧ 4 * marks.length ≤ text.length := by
  induction scans generalizing passed with
  | done nothing =>
    refine ⟨areMarksFrom_nil fun offset behind => ?_, Nat.zero_le _⟩
    obtain ⟨more, rfl⟩ := Nat.exists_eq_add_of_le behind
    exact (isUnmatchedAt_of_nextMark? nothing more).append passed
  | @next position text behind mark marks found _ ih =>
    obtain ⟨front, rfl, markPlaced, starts, unmatched⟩ := exists_of_nextMark? found
    rw [placed, ← Position.advanceBy_append] at markPlaced
    have isMark := isMarkOf_of_markAt? markPlaced starts
    have offset : mark.position.offset = passed.length + front.length := by
      rw [markPlaced, Position.offset_advanceBy_start, List.length_append]
    have stopPlaced : mark.stop = Position.start.advanceBy (passed ++ front ++ mark.source) := by
      rw [Mark.stop, markPlaced, ← Position.advanceBy_append]
    have stop : mark.stop.offset = (passed ++ front ++ mark.source).length := by
      rw [stopPlaced, Position.offset_advanceBy_start]
    obtain ⟨others, short⟩ := ih _ stopPlaced
    rw [← stop] at others
    simp only [List.append_assoc] at isMark others ⊢
    refine ⟨.cons isMark (by omega) (fun here behindPassed inFront => ?_) others, ?_⟩
    · obtain ⟨more, rfl⟩ := Nat.exists_eq_add_of_le behindPassed
      exact (unmatched more (by omega)).append passed
    · have sizes : 4 ≤ mark.source.length := by
        simp only [Mark.source, List.length_append, length_opener, List.length_cons,
          List.length_nil]
        omega
      simp only [List.length_append, List.length_cons]
      omega

end Scan

section Pieces

/-- The mark that a piece is. -/
def Piece.found? : Piece → Option Mark
  | .text _ => none
  | .mark found => some found

/-- The marks of a text that starts at a given place, with their places. -/
def placedMarksFrom (position : Position) (text : List Char) : List Mark :=
  (piecesFrom position text).filterMap Piece.found?

/-- The marks of a text, with their places. -/
def placedMarks (text : List Char) : List Mark :=
  placedMarksFrom .start text

private theorem scans_placedMarksFrom (position : Position) (text : List Char) :
    Scans position text (placedMarksFrom position text) := by
  rw [placedMarksFrom]
  fun_induction piecesFrom position text with
  | case1 position => exact .done rfl
  | case2 position c rest mark behind found ih =>
    refine .next ?_ ih
    rw [nextMark?, found]
  | case3 position c rest nothing ih =>
    have later : nextMark? position (c :: rest) = nextMark? (position.advance c) rest := by
      rw [nextMark?, nothing]
    rw [filterMap_consText fun _ => rfl]
    revert ih
    generalize (piecesFrom (position.advance c) rest).filterMap Piece.found? = marks
    intro ih
    cases ih with
    | done nothing => exact .done (later.trans nothing)
    | next found others => exact .next (later.trans found) others

/-- Looking for the next mark again and again comes to an end, after at most one mark for every four
characters, and finds the marks among the pieces of the text. They are in order, each runs from an
opener to the first closer behind it, what opens outside of them has no closer, and their lines and
columns are counted in the text in front of them. -/
theorem scan_finds_marks (text : List Char) :
    Scans .start text (placedMarks text) ∧
      (∀ marks, Scans .start text marks → marks = placedMarks text) ∧
      4 * (placedMarks text).length ≤ text.length ∧ AreMarksFrom text 0 (placedMarks text) := by
  have scans := scans_placedMarksFrom .start text
  obtain ⟨areMarks, short⟩ := scans.areMarksFrom [] rfl
  exact ⟨scans, fun marks again => again.eq scans, short, areMarks⟩

end Pieces

section Parts

/-- The text behind one mark and in front of another one. -/
def textBetween (text : List Char) (mark next : Mark) : List Char :=
  (text.take next.position.offset).drop mark.stop.offset

/-- The kind and the inner text of a mark, and its offset in a text of which the text around the
mark is the part from a given offset on. -/
def spanFrom (start : Nat) (mark : Mark) : Nat × MarkKind × List Char :=
  (start + mark.position.offset, mark.kind, mark.inner)

/-- A text has the same marks wherever it starts, as many characters further behind. -/
private theorem map_spanFrom_placedMarksFrom {position other : Position} {start : Nat}
    (moved : other.offset = start + position.offset) (text : List Char) :
    (placedMarksFrom position text).map (spanFrom start) =
      (placedMarksFrom other text).map (spanFrom 0) := by
  rw [placedMarksFrom, placedMarksFrom]
  fun_induction piecesFrom position text generalizing other with
  | case1 => rw [piecesFrom]; rfl
  | case2 position c rest mark behind found ih =>
    have elsewhere := markAt?_position position other (c :: rest)
    rw [found] at elsewhere
    have here := position_of_markAt? found
    have stopMoved : ({ mark with position := other } : Mark).stop.offset =
        start + mark.stop.offset := by
      rw [Mark.stop, Mark.stop, Position.offset_advanceBy, Position.offset_advanceBy, here, moved,
        Nat.add_assoc]
      rfl
    have same : spanFrom start mark = spanFrom 0 { mark with position := other } := by
      rw [spanFrom, spanFrom, here, moved, Nat.zero_add]
    rw [piecesFrom_of_markAt? elsewhere, List.filterMap_cons, List.filterMap_cons]
    exact congrArg₂ List.cons same (ih stopMoved)
  | case3 position c rest nothing ih =>
    have elsewhere := markAt?_position position other (c :: rest)
    rw [nothing] at elsewhere
    have advanced : (other.advance c).offset = start + (position.advance c).offset := by
      have step (place : Position) : (place.advance c).offset = place.offset + 1 :=
        Position.offset_advanceBy place [c]
      rw [step, step, moved, Nat.add_assoc]
    rw [piecesFrom_cons_of_none elsewhere, filterMap_consText (fun _ => rfl),
      filterMap_consText (fun _ => rfl), ih advanced]

/-- Blanks around a text add no marks to it. -/
private theorem placedMarksFrom_blanks {lead trail : List Char}
    (leadBlank : Text.isAllBlank lead = true)
    (trailBlank : Text.isAllBlank trail = true) (position : Position) (body : List Char) :
    placedMarksFrom position (lead ++ (body ++ trail)) =
      placedMarksFrom (position.advanceBy lead) body := by
  have plain {blanks : List Char} (blank : Text.isAllBlank blanks = true) :
      '\x7b' ∉ blanks :=
    not_mem_of_isAllBlank rfl blank
  have nothing (place : Position) : (piecesFrom place trail).filterMap Piece.found? = [] := by
    rw [← List.append_nil trail, piecesFrom_plain_append (plain trailBlank), piecesFrom,
      filterMap_foldr_consText (fun _ => rfl), List.filterMap_nil]
  rw [placedMarksFrom, piecesFrom_plain_append (plain leadBlank),
    filterMap_foldr_consText (fun _ => rfl),
    piecesFrom_append_of_isUnmarked _ _ (isUnmarked_of_isAllBlank trailBlank),
    filterMap_joinPieces (fun _ => rfl), nothing, List.append_nil]
  rfl

/-- Where marks are cut at one of them, the pieces are. -/
private theorem exists_cut_of_found? {found : List Piece} {front back : List Mark} {mark : Mark}
    (picked : found.filterMap Piece.found? = front ++ mark :: back) :
    ∃ before after, found = before ++ .mark mark :: after ∧
      before.filterMap Piece.found? = front ∧ after.filterMap Piece.found? = back := by
  obtain ⟨before, behind, rfl, pickedBefore, pickedBehind⟩ := List.filterMap_eq_append_iff.mp picked
  obtain ⟨texts, piece, after, rfl, noMarks, isMark, pickedAfter⟩ :=
    List.filterMap_eq_cons_iff.mp pickedBehind
  cases piece with
  | text chars => cases isMark
  | mark first =>
    cases isMark
    refine ⟨before ++ texts, after, (List.append_assoc ..).symm, ?_, pickedAfter⟩
    rw [List.filterMap_append, pickedBefore, List.filterMap_eq_nil_iff.mpr noMarks, List.append_nil]

private theorem textBetween_eq {text : List Char} {before inside after : List Piece}
    {mark next : Mark}
    (cut : pieces text = before ++ .mark mark :: (inside ++ .mark next :: after)) :
    textBetween text mark next = inside.flatMap Piece.source := by
  have cutNext : pieces text = before ++ .mark mark :: inside ++ .mark next :: after := by
    rw [cut, List.append_assoc, List.cons_append]
  have whole : text = before.flatMap Piece.source ++ mark.source ++ inside.flatMap Piece.source ++
      (Piece.mark next :: after).flatMap Piece.source := by
    rw [← source_pieces text, cutNext, List.flatMap_append, List.flatMap_append, List.flatMap_cons,
      ← List.append_assoc]
    rfl
  have stop : mark.stop.offset = (before.flatMap Piece.source ++ mark.source).length := by
    rw [Mark.stop, position_eq_advanceBy cut, ← Position.advanceBy_append,
      Position.offset_advanceBy_start]
  have start : next.position.offset =
      (before.flatMap Piece.source ++ mark.source ++ inside.flatMap Piece.source).length := by
    rw [position_eq_advanceBy cutNext, Position.offset_advanceBy_start, List.flatMap_append,
      List.flatMap_cons, ← List.append_assoc]
    rfl
  rw [textBetween, start, whole, List.take_left, stop, List.drop_left]

/-- The marks between two marks of a text are those of the text between them. -/
theorem placedMarksFrom_textBetween {text : List Char} {front between back : List Mark}
    {mark next : Mark} (found : placedMarks text = front ++ mark :: (between ++ next :: back)) :
    placedMarksFrom mark.stop (textBetween text mark next) = between := by
  obtain ⟨before, behind, cut, -, pickedBehind⟩ := exists_cut_of_found? found
  obtain ⟨inside, after, rfl, picked, -⟩ := exists_cut_of_found? pickedBehind
  rw [textBetween_eq cut, placedMarksFrom, piecesFrom_between cut, picked]

/-- The text between two marks, as it is or without the blanks at its ends, has the marks that the
whole text has there, as many characters further in front as stand before it. -/
theorem placedMarks_between {text : List Char} {front between back : List Mark} {mark next : Mark}
    (found : placedMarks text = front ++ mark :: (between ++ next :: back)) :
    (placedMarks (textBetween text mark next)).map (spanFrom mark.stop.offset) =
        between.map (spanFrom 0) ∧
      (placedMarks (Text.trim (textBetween text mark next))).map
          (spanFrom (mark.stop.offset +
            ((textBetween text mark next).takeWhile Text.isBlank).length)) =
        between.map (spanFrom 0) := by
  have inside := placedMarksFrom_textBetween found
  generalize textBetween text mark next = body at inside ⊢
  constructor
  · have moved : mark.stop.offset = mark.stop.offset + Position.start.offset := rfl
    rw [placedMarks, map_spanFrom_placedMarksFrom moved, inside]
  · obtain ⟨trail, trailBlank, split⟩ := Text.exists_append_trimEnd (Text.trimStart body)
    have whole : body.takeWhile Text.isBlank ++ (Text.trim body ++ trail) = body := by
      rw [Text.trim_eq, ← split]
      exact List.takeWhile_append_dropWhile
    rw [← whole, placedMarksFrom_blanks List.all_takeWhile trailBlank] at inside
    rw [placedMarks, map_spanFrom_placedMarksFrom _ (Text.trim body), inside]
    exact Position.offset_advanceBy _ _

/-- A loop in whose body a tag stands behind a closer and an opener that belong to no mark. -/
def strayLoop : List Char :=
  "{% for x in y %}\n \x7d\x7d \x7b\x7b {% x %}\n{% endfor %}".toList

/-- The marks of the loop. -/
def strayLoopMarks : Mark × Mark × Mark :=
  (⟨.tag, " for x in y ".toList, ⟨0, 1, 1⟩⟩, ⟨.tag, " x ".toList, ⟨24, 2, 8⟩⟩,
    ⟨.tag, " endfor ".toList, ⟨32, 3, 1⟩⟩)

theorem placedMarks_between_strayLoop :
    placedMarks strayLoop =
        [] ++ strayLoopMarks.1 :: ([strayLoopMarks.2.1] ++ strayLoopMarks.2.2 :: []) ∧
      (placedMarks "\n \x7d\x7d \x7b\x7b {% x %}\n".toList).map (spanFrom 16) =
        [(24, .tag, " x ".toList)] ∧
      (placedMarks "\x7d\x7d \x7b\x7b {% x %}".toList).map (spanFrom 18) =
        [(24, .tag, " x ".toList)] := by
  have found : placedMarks strayLoop =
      [] ++ strayLoopMarks.1 :: ([strayLoopMarks.2.1] ++ strayLoopMarks.2.2 :: []) := by
    decide +kernel
  have body : textBetween strayLoop strayLoopMarks.1 strayLoopMarks.2.2 =
      "\n \x7d\x7d \x7b\x7b {% x %}\n".toList := by
    decide +kernel
  have trimmed : Text.trim "\n \x7d\x7d \x7b\x7b {% x %}\n".toList =
      "\x7d\x7d \x7b\x7b {% x %}".toList := by
    decide +kernel
  have between := placedMarks_between found
  rw [body, trimmed] at between
  exact ⟨found, between⟩

end Parts

end Template

end Stencil
