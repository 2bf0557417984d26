import Stencil.Proofs.PrintedMarks

/-! # Pieces of texts put together

How the pieces of a text depend on what stands around it. A mark that has been found stays one
whatever follows, and text that opens no mark stays text unless a closer follows; so the pieces of
two texts put together are those of both, `piecesFrom_append`. Conversely, the pieces between two
marks are the pieces of the text between them, `piecesFrom_between`. Places only tell where a piece
stands, `unplaced_piecesFrom`.
-/

namespace Stencil

namespace Mark

/-- The mark without its place. -/
def unplaced (mark : Mark) : Mark :=
  { mark with position := .start }

private theorem arguments_infix (mark : Mark) : mark.arguments.toList <:+: mark.inner := by
  rw [arguments]
  split
  · rw [String.toList_ofList]
    exact Text.trim_infix _
  · rw [String.toList_ofList]
    exact (Text.trim_infix _).trans
      ((List.dropWhile_suffix _).isInfix.trans (Text.trim_infix _))

end Mark

namespace Template

section Following

private theorem breakAt?_append_of_some {closer : Char × Char} {text before behind : List Char}
    (found : breakAt? closer text = some (before, behind)) (more : List Char) :
    breakAt? closer (text ++ more) = some (before, behind ++ more) := by
  induction text generalizing before with
  | nil => simp [breakAt?] at found
  | cons first rest ih =>
    cases rest with
    | nil => simp [breakAt?] at found
    | cons second rest =>
      rw [breakAt?] at found
      rw [List.cons_append, List.cons_append, breakAt?]
      split at found
      · next here =>
        cases found
        rw [if_pos here]
      · next notHere =>
        obtain ⟨⟨later, others⟩, inside, same⟩ := Option.map_eq_some_iff.mp found
        cases same
        rw [if_neg notHere, ← List.cons_append, ih inside]
        rfl

/-- What stands behind the first closer does not matter. -/
theorem breakAt?_of_some {closer : Char × Char} {text before behind : List Char}
    (found : breakAt? closer text = some (before, behind)) (more : List Char) :
    breakAt? closer (before ++ closer.1 :: closer.2 :: more) = some (before, more) := by
  induction text generalizing before with
  | nil => simp [breakAt?] at found
  | cons first rest ih =>
    cases rest with
    | nil => simp [breakAt?] at found
    | cons second rest =>
      rw [breakAt?] at found
      split at found
      · cases found
        rw [List.nil_append, breakAt?, if_pos ⟨rfl, rfl⟩]
      · next notHere =>
        obtain ⟨⟨later, others⟩, inside, same⟩ := Option.map_eq_some_iff.mp found
        cases same
        have notFirst : first = closer.1 →
            (later ++ closer.1 :: closer.2 :: more).head? ≠ some closer.2 := by
          intro opens next
          have second_eq : (second :: rest).head? = some closer.2 := by
            rw [append_of_breakAt? inside, ← next]
            cases later <;> rfl
          cases second_eq
          exact notHere ⟨opens, rfl⟩
        rw [List.cons_append, breakAt?_cons_of_ne notFirst, ih inside]
        rfl

/-- A closer ends with the text that holds its last character. -/
theorem breakAt?_append_of_none {closer : Char × Char} {text more : List Char}
    (nothing : breakAt? closer text = none) (plain : closer.2 ∉ more) :
    breakAt? closer (text ++ more) = none := by
  have apart (c : Char) : c = closer.1 → more.head? ≠ some closer.2 :=
    fun _ next => plain (List.mem_of_head? next)
  have noneInMore : breakAt? closer more = none := by
    rw [← Option.not_isSome_iff_eq_none, Option.isSome_iff_exists]
    rintro ⟨⟨before, behind⟩, found⟩
    rw [append_of_breakAt? found] at plain
    simp at plain
  induction text with
  | nil => exact noneInMore
  | cons first rest ih =>
    cases rest with
    | nil =>
      rw [List.singleton_append, breakAt?_cons_of_ne (apart first), noneInMore]
      rfl
    | cons second rest =>
      rw [breakAt?] at nothing
      rw [List.cons_append, List.cons_append, breakAt?]
      split at nothing
      · cases nothing
      · next notHere =>
        rw [if_neg notHere, ← List.cons_append, ih (Option.map_eq_none_iff.mp nothing)]
        rfl

theorem markAt?_opener (kind : MarkKind) (position : Position) (rest : List Char) :
    markAt? position (kind.opener ++ rest) = closeMark? kind position rest := by
  cases kind <;> rfl

/-- A mark is what stands between an opener and the first closer behind it. -/
theorem markAt?_eq_some {position : Position} {text behind : List Char} {mark : Mark} :
    markAt? position text = some (mark, behind) ↔ mark.position = position ∧
      ∃ rest, text = mark.kind.opener ++ rest ∧
        breakAt? mark.kind.closer rest = some (mark.inner, behind) := by
  constructor
  · intro found
    have closed (kind : MarkKind) (rest : List Char)
        (closes : closeMark? kind position rest = some (mark, behind)) :
        mark.position = position ∧ mark.kind = kind ∧
          breakAt? kind.closer rest = some (mark.inner, behind) := by
      obtain ⟨⟨inner, others⟩, inside, same⟩ := Option.map_eq_some_iff.mp closes
      cases same
      exact ⟨rfl, rfl, inside⟩
    unfold markAt? at found
    split at found
    · next rest =>
      obtain ⟨placed, isTag, inside⟩ := closed .tag rest found
      exact ⟨placed, rest, by rw [isTag]; rfl, by rw [isTag, inside]⟩
    · next rest =>
      obtain ⟨placed, isSubstitution, inside⟩ := closed .substitution rest found
      exact ⟨placed, rest, by rw [isSubstitution]; rfl, by rw [isSubstitution, inside]⟩
    · cases found
  · rintro ⟨rfl, rest, rfl, closed⟩
    rw [markAt?_opener, closeMark?, closed]
    rfl

/-- A mark is found whatever follows it. -/
theorem markAt?_append {position : Position} {text behind : List Char} {mark : Mark}
    (found : markAt? position text = some (mark, behind)) (more : List Char) :
    markAt? position (text ++ more) = some (mark, behind ++ more) := by
  obtain ⟨placed, rest, rfl, closed⟩ := markAt?_eq_some.mp found
  exact markAt?_eq_some.mpr
    ⟨placed, rest ++ more, List.append_assoc .., breakAt?_append_of_some closed more⟩

/-- A mark is found where its text stands, whatever follows it. -/
theorem markAt?_source_append {position : Position} {text behind : List Char} {mark : Mark}
    (found : markAt? position text = some (mark, behind)) (more : List Char) :
    markAt? position (mark.source ++ more) = some (mark, more) := by
  obtain ⟨placed, rest, -, closed⟩ := markAt?_eq_some.mp found
  exact markAt?_eq_some.mpr ⟨placed, _, by simp [Mark.source], breakAt?_of_some closed more⟩

theorem position_of_markAt? {position : Position} {text behind : List Char} {mark : Mark}
    (found : markAt? position text = some (mark, behind)) : mark.position = position :=
  (markAt?_eq_some.mp found).1

/-- Whether a text holds none of the characters of which openers and closers are made. -/
def isUnmarked (text : List Char) : Bool :=
  text.all fun c => c != '%' && c != '\x7b' && c != '\x7d'

private theorem closeMark?_append_of_none {kind : MarkKind} {position : Position}
    {text more : List Char}
    (nothing : closeMark? kind position text = none) (plain : '\x7d' ∉ more) :
    closeMark? kind position (text ++ more) = none := by
  rw [closeMark?, Option.map_eq_none_iff] at nothing ⊢
  apply breakAt?_append_of_none nothing
  cases kind <;> exact plain

/-- No mark starts at a text because of something unmarked behind it. -/
theorem markAt?_append_of_none {position : Position} {c : Char} {rest more : List Char}
    (nothing : markAt? position (c :: rest) = none) (unmarked : isUnmarked more = true) :
    markAt? position (c :: rest ++ more) = none := by
  have plain (d : Char) (member : d ∈ more) : d ≠ '%' ∧ d ≠ '\x7b' ∧ d ≠ '\x7d' := by
    simpa [and_assoc] using List.all_eq_true.mp unmarked d member
  have noCloser : '\x7d' ∉ more := fun member => (plain _ member).2.2 rfl
  unfold markAt? at nothing ⊢
  cases rest with
  | nil =>
    cases more with
    | nil => exact nothing
    | cons d others =>
      obtain ⟨noPercent, noBrace, -⟩ := plain d List.mem_cons_self
      split
      · next same =>
        cases same
        exact absurd rfl noPercent
      · next same =>
        cases same
        exact absurd rfl noBrace
      · rfl
  | cons second others =>
    split at nothing
    · next same =>
      cases same
      exact closeMark?_append_of_none nothing noCloser
    · next same =>
      cases same
      exact closeMark?_append_of_none nothing noCloser
    · next noTag noSubstitution =>
      split
      · next same =>
        cases same
        exact absurd rfl (noTag others)
      · next same =>
        cases same
        exact absurd rfl (noSubstitution others)
      · rfl

end Following

section Joined

/-- Pieces in front of others. Text that meets text becomes one piece with it. -/
def joinPieces : List Piece → List Piece → List Piece
  | [], more => more
  | .text chars :: rest, more => chars.foldr consText (joinPieces rest more)
  | .mark mark :: rest, more => .mark mark :: joinPieces rest more

@[simp] theorem joinPieces_consText (c : Char) (front more : List Piece) :
    joinPieces (consText c front) more = consText c (joinPieces front more) := by
  unfold consText
  split
  · rfl
  · rfl

theorem piecesFrom_cons_of_none {position : Position} {c : Char} {rest : List Char}
    (nothing : markAt? position (c :: rest) = none) :
    piecesFrom position (c :: rest) = consText c (piecesFrom (position.advance c) rest) := by
  rw [piecesFrom]
  split
  · next found =>
    rw [nothing] at found
    cases found
  · rfl

/-- Two texts are cut apart where they meet, as long as no mark reaches from the first one into
the second one: `Apart` tells this of every part of the first text at which a mark may start. -/
theorem piecesFrom_append_of {Apart : Position → List Char → Prop} {more : List Char}
    (behindMark : ∀ {position text mark behind}, Apart position text →
      markAt? position text = some (mark, behind) → Apart mark.stop behind)
    (behindText : ∀ {position c rest}, Apart position (c :: rest) →
      markAt? position (c :: rest) = none →
      markAt? position (c :: rest ++ more) = none ∧ Apart (position.advance c) rest)
    {position : Position} {text : List Char} (apart : Apart position text) :
    piecesFrom position (text ++ more) =
      joinPieces (piecesFrom position text) (piecesFrom (position.advanceBy text) more) := by
  fun_induction piecesFrom position text with
  | case1 position => rfl
  | case2 position c rest mark behind found ih =>
    have stop : (position.advanceBy (c :: rest)) = mark.stop.advanceBy behind := by
      rw [Mark.stop, position_of_markAt? found, ← Position.advanceBy_append,
        ← append_of_markAt? found]
    rw [piecesFrom_of_markAt? (markAt?_append found more), ih (behindMark apart found), stop]
    rfl
  | case3 position c rest nothing ih =>
    obtain ⟨stillNothing, restApart⟩ := behindText apart nothing
    rw [List.cons_append] at stillNothing
    rw [joinPieces_consText, List.cons_append, piecesFrom_cons_of_none stillNothing, ih restApart]
    rfl

/-- The text that a character in front of the pieces belongs to. -/
theorem exists_text_mem_consText (c : Char) (rest : List Piece) :
    ∃ chars, .text (c :: chars) ∈ consText c rest := by
  unfold consText
  split
  · next chars others => exact ⟨chars, List.mem_cons_self⟩
  · exact ⟨[], List.mem_cons_self⟩

/-- A character in front of the pieces only adds to their texts. -/
theorem exists_text_mem_consText_of_mem (c : Char) {chars : List Char} {rest : List Piece}
    (member : .text chars ∈ rest) : ∃ longer, .text longer ∈ consText c rest ∧ chars ⊆ longer := by
  cases rest with
  | nil => cases member
  | cons piece others =>
    rcases List.mem_cons.mp member with rfl | later
    · exact ⟨c :: chars, List.mem_cons_self, List.subset_cons_self c chars⟩
    · refine ⟨chars, ?_, List.Subset.refl chars⟩
      cases piece with
      | text | mark => simp [consText, later]

/-- A text at a place, outside of whose marks no opening brace stands. -/
def IsSettledAt (position : Position) (text : List Char) : Prop :=
  ∀ chars, .text chars ∈ piecesFrom position text → '\x7b' ∉ chars

private theorem IsSettledAt.behindMark {position : Position} {text behind : List Char} {mark : Mark}
    (settled : IsSettledAt position text) (found : markAt? position text = some (mark, behind)) :
    IsSettledAt mark.stop behind := by
  intro chars member
  apply settled chars
  rw [piecesFrom_of_markAt? found]
  exact List.mem_cons_of_mem _ member

private theorem IsSettledAt.behindText {position : Position} {c : Char} {rest : List Char}
    (settled : IsSettledAt position (c :: rest)) (nothing : markAt? position (c :: rest) = none) :
    c ≠ '\x7b' ∧ IsSettledAt (position.advance c) rest := by
  rw [IsSettledAt, piecesFrom_cons_of_none nothing] at settled
  constructor
  · obtain ⟨chars, member⟩ := exists_text_mem_consText c (piecesFrom (position.advance c) rest)
    exact fun opens => settled _ member (List.mem_cons.mpr (.inl opens.symm))
  · intro chars member brace
    obtain ⟨longer, longerMember, inside⟩ := exists_text_mem_consText_of_mem c member
    exact settled longer longerMember (inside brace)

private theorem markAt?_of_ne {c : Char} (plain : c ≠ '\x7b') (position : Position)
    (rest : List Char) : markAt? position (c :: rest) = none := by
  rw [markAt?]
  all_goals simp [plain]

/-- The pieces of a text behind a settled one do not depend on it. -/
theorem piecesFrom_append {position : Position} {text : List Char}
    (settled : IsSettledAt position text) (more : List Char) :
    piecesFrom position (text ++ more) =
      joinPieces (piecesFrom position text) (piecesFrom (position.advanceBy text) more) := by
  refine piecesFrom_append_of IsSettledAt.behindMark (fun settled nothing => ?_) settled
  obtain ⟨plain, restSettled⟩ := settled.behindText nothing
  exact ⟨markAt?_of_ne plain _ _, restSettled⟩

/-- Unmarked text behind another one does not change its pieces. -/
theorem piecesFrom_append_of_isUnmarked (position : Position) (text : List Char) {more : List Char}
    (unmarked : isUnmarked more = true) :
    piecesFrom position (text ++ more) =
      joinPieces (piecesFrom position text) (piecesFrom (position.advanceBy text) more) :=
  @piecesFrom_append_of (fun _ _ => True) more (fun _ _ => trivial)
    (fun _ nothing => ⟨markAt?_append_of_none nothing unmarked, trivial⟩) position text trivial

end Joined

section BetweenMarks

/-- Where pieces with a character in front of them are cut at a mark, the pieces themselves are. -/
theorem exists_of_consText_eq_append {c : Char} {rest front after : List Piece} {mark : Mark}
    (same : consText c rest = front ++ .mark mark :: after) :
    ∃ inner, front = consText c inner ∧ rest = inner ++ .mark mark :: after := by
  cases rest with
  | nil =>
    cases front with
    | nil => cases same
    | cons first others => simp [consText] at same
  | cons piece others =>
    cases piece with
    | text chars =>
      rw [consText] at same
      cases front with
      | nil => cases same
      | cons first later =>
        obtain ⟨rfl, rfl⟩ := List.cons.inj same
        exact ⟨.text chars :: later, rfl, rfl⟩
    | mark found =>
      cases front with
      | nil => simp [consText] at same
      | cons first later =>
        obtain ⟨rfl, others_eq⟩ := List.cons.inj same
        refine ⟨later, ?_, others_eq⟩
        cases later with
        | nil => rfl
        | cons next more =>
          obtain ⟨rfl, -⟩ := List.cons.inj others_eq
          rfl

/-- The pieces behind a mark are those of the text behind it. -/
theorem piecesFrom_behind {position : Position} {text : List Char} {before rest : List Piece}
    {mark : Mark} (cut : piecesFrom position text = before ++ .mark mark :: rest) :
    rest = piecesFrom mark.stop (rest.flatMap Piece.source) := by
  fun_induction piecesFrom position text generalizing before with
  | case1 => simp at cut
  | case2 position c others found behind isMark ih =>
    cases before with
    | nil =>
      cases cut
      rw [source_piecesFrom]
    | cons first later => exact ih (List.cons.inj cut).2
  | case3 position c others nothing ih =>
    obtain ⟨inner, -, innerCut⟩ := exists_of_consText_eq_append cut
    exact ih innerCut

/-- The pieces in front of a mark are those of the text in front of it. -/
theorem piecesFrom_front {position : Position} {text : List Char} {front after : List Piece}
    {mark : Mark} (cut : piecesFrom position text = front ++ .mark mark :: after) :
    piecesFrom position (front.flatMap Piece.source) = front := by
  fun_induction piecesFrom position text generalizing front with
  | case1 => simp at cut
  | case2 position c others found behind isMark ih =>
    cases front with
    | nil => rw [List.flatMap_nil, piecesFrom]
    | cons first later =>
      obtain ⟨rfl, laterCut⟩ := List.cons.inj cut
      have starts := markAt?_source_append isMark (later.flatMap Piece.source)
      rw [List.flatMap_cons, Piece.source, piecesFrom_of_markAt? starts, ih laterCut]
  | case3 position c others nothing ih =>
    obtain ⟨inner, rfl, innerCut⟩ := exists_of_consText_eq_append cut
    rw [flatMap_source_consText]
    have whole : others = inner.flatMap Piece.source ++
        (Piece.mark mark :: after).flatMap Piece.source := by
      rw [← List.flatMap_append, ← innerCut, source_piecesFrom]
    -- a mark that started here would also start in front of the longer text
    have stillNothing : markAt? position (c :: inner.flatMap Piece.source) = none := by
      rw [← Option.not_isSome_iff_eq_none, Option.isSome_iff_exists]
      rintro ⟨⟨early, behind⟩, found⟩
      have impossible := markAt?_append found ((Piece.mark mark :: after).flatMap Piece.source)
      rw [List.cons_append, ← whole, nothing] at impossible
      cases impossible
    rw [piecesFrom_cons_of_none stillNothing, ih innerCut]

/-- The pieces between two marks are those of the text between them. -/
theorem piecesFrom_between {position : Position} {text : List Char}
    {before inside after : List Piece} {mark next : Mark}
    (cut : piecesFrom position text =
      before ++ .mark mark :: (inside ++ .mark next :: after)) :
    piecesFrom mark.stop (inside.flatMap Piece.source) = inside :=
  piecesFrom_front (piecesFrom_behind cut).symm

end BetweenMarks

section Places

/-- The piece without its place. -/
def Piece.unplaced : Piece → Piece
  | .text chars => .text chars
  | .mark found => .mark found.unplaced

private theorem closeMark?_position (kind : MarkKind) (position other : Position)
    (text : List Char) :
    closeMark? kind other text =
      (closeMark? kind position text).map fun found =>
        ({ found.1 with position := other }, found.2) := by
  rw [closeMark?, closeMark?, Option.map_map]
  rfl

theorem markAt?_position (position other : Position) (text : List Char) :
    markAt? other text =
      (markAt? position text).map fun found => ({ found.1 with position := other }, found.2) := by
  unfold markAt?
  split
  · exact closeMark?_position ..
  · exact closeMark?_position ..
  · rfl

@[simp] theorem map_unplaced_consText (c : Char) (rest : List Piece) :
    (consText c rest).map Piece.unplaced = consText c (rest.map Piece.unplaced) := by
  cases rest with
  | nil => rfl
  | cons piece others => cases piece <;> rfl

/-- Where a text stands does not matter to its pieces, apart from their places. -/
theorem unplaced_piecesFrom (position other : Position) (text : List Char) :
    (piecesFrom position text).map Piece.unplaced = (piecesFrom other text).map Piece.unplaced := by
  fun_induction piecesFrom position text generalizing other with
  | case1 => rw [piecesFrom]
  | case2 position c rest mark behind found ih =>
    have elsewhere := markAt?_position position other (c :: rest)
    rw [found] at elsewhere
    rw [piecesFrom_of_markAt? elsewhere, List.map_cons, List.map_cons, ih]
    rfl
  | case3 position c rest nothing ih =>
    have elsewhere := markAt?_position position other (c :: rest)
    rw [nothing] at elsewhere
    rw [piecesFrom_cons_of_none elsewhere, map_unplaced_consText, map_unplaced_consText, ih]

end Places

section Marks

/-- The mark that a piece is, without its place. -/
def Piece.mark? : Piece → Option Mark
  | .text _ => none
  | .mark found => some found.unplaced

/-- The marks of a template, without their places. -/
def marks (text : List Char) : List Mark :=
  (pieces text).filterMap Piece.mark?

theorem mem_marks {text : List Char} {mark : Mark} (member : .mark mark ∈ pieces text) :
    mark.unplaced ∈ marks text :=
  List.mem_filterMap.mpr ⟨_, member, rfl⟩

/-- A mark of a template stands in its text. -/
theorem inner_infix_of_mem_marks {text : List Char} {mark : Mark} (member : mark ∈ marks text) :
    mark.inner <:+: text := by
  obtain ⟨piece, listed, isMark⟩ := List.mem_filterMap.mp member
  cases piece with
  | text chars => cases isMark
  | mark found =>
    cases isMark
    obtain ⟨before, after, cut⟩ := List.append_of_mem listed
    have whole : found.source <:+: text := by
      rw [← source_pieces text, cut, List.flatMap_append, List.flatMap_cons]
      exact List.infix_append' _ _ _
    exact List.IsInfix.trans ⟨found.kind.opener, _, rfl⟩ whole

theorem arguments_infix_of_mem_marks {text : List Char} {mark : Mark}
    (member : mark ∈ marks text) : mark.arguments.toList <:+: text :=
  mark.arguments_infix.trans (inner_infix_of_mem_marks member)

/-- A text has the same marks wherever it stands. -/
theorem marks_eq (position : Position) (text : List Char) :
    marks text = (piecesFrom position text).filterMap Piece.mark? := by
  have unplaced (found : List Piece) :
      found.filterMap Piece.mark? = (found.map Piece.unplaced).filterMap Piece.mark? := by
    have same : Piece.mark? ∘ Piece.unplaced = Piece.mark? := by
      funext piece
      cases piece <;> rfl
    rw [List.filterMap_map, same]
  rw [marks, pieces, unplaced, unplaced_piecesFrom .start position, ← unplaced]

section Picking

variable {β : Type} {pick : Piece → Option β} (noText : ∀ chars, pick (.text chars) = none)
include noText

/-- What is picked from the marks alone is not changed by a character in front of the pieces. -/
theorem filterMap_consText (c : Char) (rest : List Piece) :
    (consText c rest).filterMap pick = rest.filterMap pick := by
  unfold consText
  split
  · rw [List.filterMap_cons_none (noText _), List.filterMap_cons_none (noText _)]
  · rw [List.filterMap_cons_none (noText _)]

theorem filterMap_foldr_consText (chars : List Char) (rest : List Piece) :
    (chars.foldr consText rest).filterMap pick = rest.filterMap pick := by
  induction chars with
  | nil => rfl
  | cons c others ih => rw [List.foldr_cons, filterMap_consText noText, ih]

theorem filterMap_joinPieces (front more : List Piece) :
    (joinPieces front more).filterMap pick = front.filterMap pick ++ more.filterMap pick := by
  induction front with
  | nil => rfl
  | cons piece rest ih =>
    cases piece with
    | text chars =>
      rw [joinPieces, filterMap_foldr_consText noText, ih, List.filterMap_cons_none (noText _)]
    | mark found =>
      rw [joinPieces, ← List.singleton_append, List.filterMap_append, ih, ← List.append_assoc,
        ← List.filterMap_append, List.singleton_append]

end Picking

/-- Text without opening braces in front of a template adds no mark. -/
theorem marks_plain_append {chars : List Char} (plain : '\x7b' ∉ chars) (text : List Char) :
    marks (chars ++ text) = marks text := by
  rw [marks, pieces, piecesFrom_plain_append plain, filterMap_foldr_consText (fun _ => rfl),
    ← marks_eq]

/-- Unmarked text behind a template adds no mark. -/
theorem marks_append_of_isUnmarked (text : List Char) {more : List Char}
    (unmarked : isUnmarked more = true) : marks (text ++ more) = marks text := by
  have plain : '\x7b' ∉ more := fun member => by
    simpa using List.all_eq_true.mp unmarked _ member
  have nothing : marks more = [] := by
    rw [← List.append_nil more, marks_plain_append plain, marks, pieces, piecesFrom,
      List.filterMap_nil]
  rw [marks, pieces, piecesFrom_append_of_isUnmarked .start text unmarked,
    filterMap_joinPieces (fun _ => rfl), ← marks_eq, ← marks_eq, nothing, List.append_nil]

theorem isUnmarked_of_isAllBlank {text : List Char} (blank : Text.isAllBlank text = true) :
    isUnmarked text = true := by
  refine List.all_eq_true.mpr fun c member => ?_
  have blank := List.all_eq_true.mp blank c member
  have differs (d : Char) (visible : Text.isBlank d = false) : c ≠ d := by
    rintro rfl
    rw [blank] at visible
    cases visible
  simp [differs '%' rfl, differs '\x7b' rfl, differs '\x7d' rfl]

/-- Trimming a template keeps its marks. -/
@[simp] theorem marks_trim (text : List Char) : marks (Text.trim text) = marks text := by
  obtain ⟨front, back, frontBlank, backBlank, split⟩ := Text.exists_append_trim text
  have plain : '\x7b' ∉ front := fun member => by
    simpa using List.all_eq_true.mp (isUnmarked_of_isAllBlank frontBlank) _ member
  calc marks (Text.trim text)
      = marks (Text.trim text ++ back) :=
        (marks_append_of_isUnmarked _ (isUnmarked_of_isAllBlank backBlank)).symm
    _ = marks (front ++ (Text.trim text ++ back)) := (marks_plain_append plain _).symm
    _ = marks text := by rw [← List.append_assoc, ← split]

end Marks

end Template

end Stencil
