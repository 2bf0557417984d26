import Stencil.Proofs.Pieces
import Stencil.Proofs.TreeOutline

/-! # Where the nodes of an outline come from

Nothing in an outline is made up. A text is one of the pieces; an inline tag is registered and
stands in a mark; a section is started by a mark whose name and handler belong to a registered
block, and its body is what stands between that mark and a later one: `isOf_of_mem_outlineFrom`.
With the standard tags these are the sections of conditionals and loops.
-/

namespace Stencil

/-- Whether a block of the registry has sections with this name and this handler: the one that its
own tag starts, and those that its sub-tags start. -/
def TagRegistry.StartsSection (tags : TagRegistry) (name : String) (handler : SectionHandler) :
    Prop :=
  ∃ opener block, tags.find? opener = some (.block block) ∧
    (name = opener ∧ handler = block.handler ∨
      ∃ subTag ∈ block.subTags, name = subTag.name ∧
        handler = subTag.handler.getD block.handler)

/-- The sections of the standard blocks. -/
theorem StandardTag.startsSection_all {name : String} {handler : SectionHandler}
    (starts : all.StartsSection name handler) :
    name ∈ ["if", "elif", "else"] ∧ handler = conditional ∨ name = "for" ∧ handler = forLoop := by
  obtain ⟨opener, block, found, start⟩ := starts
  rcases eq_of_find?_all found with ⟨isFor, same⟩ | ⟨isIf, same⟩ | ⟨-, same⟩ | ⟨-, same⟩
  · cases same
    rcases start with ⟨rfl, rfl⟩ | ⟨subTag, member, -⟩
    · exact .inr ⟨isFor, rfl⟩
    · cases member
  · cases same
    rcases start with ⟨rfl, rfl⟩ | ⟨subTag, member, rfl, rfl⟩
    · exact .inl ⟨by rw [isIf]; decide, rfl⟩
    · rw [conditionalBlock, List.mem_cons, List.mem_singleton] at member
      rcases member with rfl | rfl <;> exact .inl ⟨by decide, rfl⟩
  · cases same
  · cases same

namespace Template

/-- A section that a mark starts, whose body is the given pieces. -/
structure IsSectionFrom (tags : TagRegistry) (mark : Mark) (inside : List Piece)
    (part : Section) : Prop where
  starts : tags.StartsSection part.name part.handler
  name : part.name = mark.name
  arguments : part.arguments = mark.arguments
  body : part.body.toList = inside.flatMap Piece.source

/-- A section between two marks of a template. -/
def IsSectionOf (tags : TagRegistry) (pieces : List Piece) (part : Section) : Prop :=
  ∃ before mark inside next after,
    pieces = before ++ .mark mark :: (inside ++ .mark next :: after) ∧
      IsSectionFrom tags mark inside part

/-- A node whose parts are all found in a template or in the registry. -/
def Node.IsOf (tags : TagRegistry) (pieces : List Piece) : Node → Prop
  | .text content => .text content.toList ∈ pieces
  | .inline name arguments handler =>
    tags.find? name = some (.inline handler) ∧
      ∃ mark, .mark mark ∈ pieces ∧ mark.name = name ∧ mark.arguments = arguments
  | .block sections => ∀ part ∈ sections, IsSectionOf tags pieces part

/-- An open block behind the pieces that have been passed so far: its current section goes up to
the last one of them. -/
structure OpenBlock.IsOf (tags : TagRegistry) (passed : List Piece) (block : OpenBlock) :
    Prop where
  registered : ∃ opener, tags.find? opener = some (.block block.tag)
  sections : ∀ part ∈ block.sections, IsSectionOf tags passed part
  current : ∃ before mark inside, passed = before ++ .mark mark :: inside ∧
    IsSectionFrom tags mark inside block.current

variable {tags : TagRegistry} {passed : List Piece}

private theorem IsSectionOf.append {part : Section} (isSection : IsSectionOf tags passed part)
    (more : List Piece) : IsSectionOf tags (passed ++ more) part := by
  obtain ⟨before, mark, inside, next, after, rfl, isFrom⟩ := isSection
  exact ⟨before, mark, inside, next, after ++ more, by simp, isFrom⟩

theorem IsSectionOf.startsSection {part : Section} (isSection : IsSectionOf tags passed part) :
    tags.StartsSection part.name part.handler := by
  obtain ⟨_, _, _, _, _, -, isFrom⟩ := isSection
  exact isFrom.starts

/-- With the standard tags a section belongs to a conditional or to a loop. -/
theorem IsSectionOf.eq_of_standard {part : Section} (isSection : IsSectionOf tags passed part)
    (standard : tags = StandardTag.all) :
    part.handler = StandardTag.conditional ∨ part.handler = StandardTag.forLoop := by
  have starts := isSection.startsSection
  rw [standard] at starts
  exact (StandardTag.startsSection_all starts).imp And.right And.right

/-- A section behind which a mark stands. -/
theorem IsSectionFrom.isSectionOf {before inside : List Piece} {mark : Mark} {part : Section}
    (isFrom : IsSectionFrom tags mark inside part) (next : Mark) :
    IsSectionOf tags (before ++ .mark mark :: inside ++ [.mark next]) part :=
  ⟨before, mark, inside, next, [], by simp, isFrom⟩

/-- The section that a mark has just started. -/
theorem isSectionFrom_sectionOf {mark : Mark} {handler : SectionHandler}
    (starts : tags.StartsSection mark.name handler) :
    IsSectionFrom tags mark [] (OpenBlock.sectionOf mark handler) :=
  ⟨starts, rfl, rfl, rfl⟩

namespace OpenBlock

variable {block : OpenBlock}

private theorem IsOf.addText (isOf : block.IsOf tags passed) (piece : Piece) :
    (block.addText piece.source).IsOf tags (passed ++ [piece]) := by
  obtain ⟨before, mark, inside, rfl, isFrom⟩ := isOf.current
  have longer : IsSectionFrom tags mark (inside ++ [piece])
      (block.addText piece.source).current := by
    refine ⟨isFrom.starts, isFrom.name, isFrom.arguments, ?_⟩
    rw [addText, String.toList_append, isFrom.body, String.toList_ofList, List.flatMap_append]
    simp
  exact ⟨isOf.registered, fun part member => (isOf.sections part member).append _,
    before, mark, inside ++ [piece], by simp, longer⟩

private theorem IsOf.passTag (isOf : block.IsOf tags passed) (name : String) :
    (block.passTag tags name).IsOf tags passed := by
  rw [OpenBlock.passTag]
  repeat' split
  all_goals exact ⟨isOf.registered, isOf.sections, isOf.current⟩

/-- The sections of a block whose current one ends at a mark. -/
theorem IsOf.isSectionOf (isOf : block.IsOf tags passed) (mark : Mark) :
    ∀ part ∈ block.sections ++ [block.current], IsSectionOf tags (passed ++ [.mark mark]) part := by
  obtain ⟨before, start, inside, rfl, isFrom⟩ := isOf.current
  intro part member
  rcases List.mem_append.mp member with member | member
  · exact (isOf.sections part member).append _
  · rw [List.mem_singleton.mp member]
    exact isFrom.isSectionOf mark

private theorem isOf_ofMark {mark : Mark} {tag : BlockTag}
    (found : tags.find? mark.name = some (.block tag)) :
    (OpenBlock.ofMark mark tag).IsOf tags (passed ++ [.mark mark]) :=
  ⟨⟨mark.name, found⟩, nofun, passed, mark, [], rfl,
    isSectionFrom_sectionOf ⟨mark.name, tag, found, .inl ⟨rfl, rfl⟩⟩⟩

private theorem IsOf.startSection (isOf : block.IsOf tags passed) {mark : Mark} {subTag : SubTag}
    (found : block.tag.subTag? mark.name = some subTag) :
    (block.startSection mark subTag.handler).IsOf tags (passed ++ [.mark mark]) := by
  obtain ⟨opener, registered⟩ := isOf.registered
  have sameName : (subTag.name == mark.name) = true :=
    List.find?_some (p := fun subTag : SubTag => subTag.name == mark.name) found
  have starts : tags.StartsSection mark.name (subTag.handler.getD block.tag.handler) :=
    ⟨opener, block.tag, registered,
      .inr ⟨subTag, List.mem_of_find?_eq_some found, (beq_iff_eq.mp sameName).symm, rfl⟩⟩
  exact ⟨isOf.registered, isOf.isSectionOf mark, passed, mark, [], rfl,
    isSectionFrom_sectionOf starts⟩

/-- What one mark does to an open block: the block that goes on, or the sections of the block that
has ended, again come from what has been passed. -/
theorem IsOf.step (isOf : block.IsOf tags passed) (mark : Mark) :
    match block.step tags mark with
    | .more next => next.IsOf tags (passed ++ [.mark mark])
    | .closed sections => ∀ part ∈ sections, IsSectionOf tags (passed ++ [.mark mark]) part := by
  have kept : ((block.passTag tags mark.name).keepMark mark).IsOf tags (passed ++ [.mark mark]) :=
    (isOf.passTag mark.name).addText (.mark mark)
  rw [OpenBlock.step]
  cases mark.kind with
  | substitution => exact isOf.addText (.mark mark)
  | tag =>
    dsimp only
    by_cases outside : block.nested.isEmpty
    · rw [if_pos outside]
      cases found : block.tag.subTag? mark.name with
      | some subTag => exact isOf.startSection found
      | none =>
        by_cases ends : mark.name = block.tag.endName
        · simp only [if_pos ends]
          exact isOf.isSectionOf mark
        · simp only [if_neg ends]
          exact kept
    · rw [if_neg outside]
      exact kept

end OpenBlock

/-- Every node of an outline comes from the pieces. -/
theorem isOf_of_mem_outlineFrom {rest : List Piece} {block? : Option OpenBlock}
    (isOf : ∀ block ∈ block?, block.IsOf tags passed) :
    ∀ node ∈ (outlineFrom tags block? rest).nodes, node.IsOf tags (passed ++ rest) := by
  induction rest generalizing passed block? with
  | nil => cases block? <;> simp [outlineFrom]
  | cons piece rest ih =>
    have regroup : passed ++ piece :: rest = passed ++ [piece] ++ rest := by simp
    have here : piece ∈ passed ++ piece :: rest := by simp
    have later : ∀ node ∈ (outlineFrom tags none rest).nodes,
        node.IsOf tags (passed ++ piece :: rest) := by
      rw [regroup]
      exact ih (by simp)
    cases block? with
    | none =>
      cases piece with
      | text chars =>
        rw [outlineFrom]
        refine List.forall_mem_cons.mpr ⟨?_, later⟩
        rw [Node.IsOf, String.toList_ofList]
        exact here
      | mark mark =>
        rw [outlineFrom]
        split
        · next handler found =>
          exact List.forall_mem_cons.mpr ⟨⟨found, mark, here, rfl, rfl⟩, later⟩
        · next tag found =>
          rw [regroup]
          apply ih
          rintro block ⟨⟩
          exact OpenBlock.isOf_ofMark found
        · simp
    | some block =>
      have blockIsOf := isOf block rfl
      cases piece with
      | text chars =>
        rw [outlineFrom, regroup]
        apply ih
        rintro longer ⟨⟩
        exact blockIsOf.addText (.text chars)
      | mark mark =>
        have stepped := blockIsOf.step mark
        rw [outlineFrom]
        split
        · next next same =>
          rw [same] at stepped
          rw [regroup]
          apply ih
          rintro longer ⟨⟩
          exact stepped
        · next sections same =>
          rw [same] at stepped
          have isBlock : (Node.block sections).IsOf tags (passed ++ .mark mark :: rest) := by
            intro part member
            rw [regroup]
            exact (stepped part member).append rest
          exact List.forall_mem_cons.mpr ⟨isBlock, later⟩

/-- Every node of the outline of a template comes from its pieces. -/
theorem isOf_of_mem_outline {source : String} :
    ∀ node ∈ (outline tags source).nodes, node.IsOf tags (pieces source.toList) := by
  have noBlock : ∀ block ∈ (none : Option OpenBlock), block.IsOf tags [] := nofun
  exact isOf_of_mem_outlineFrom noBlock

namespace IsSectionOf

variable {source : String} {part : Section}
  (isSection : IsSectionOf tags (pieces source.toList) part)
include isSection

theorem exists_mark :
    ∃ mark ∈ marks source.toList, mark.name = part.name ∧ mark.arguments = part.arguments := by
  obtain ⟨before, mark, inside, next, after, cut, isFrom⟩ := isSection
  have here : .mark mark ∈ pieces source.toList := by simp [cut]
  exact ⟨mark.unplaced, mem_marks here, isFrom.name.symm, isFrom.arguments.symm⟩

theorem arguments_infix : part.arguments.toList <:+: source.toList := by
  obtain ⟨mark, member, -, sameArguments⟩ := isSection.exists_mark
  rw [← sameArguments]
  exact arguments_infix_of_mem_marks member

/-- The marks in the body of a section are marks of the template. -/
theorem marks_body_subset : marks part.body.toList ⊆ marks source.toList := by
  obtain ⟨before, mark, inside, next, after, cut, isFrom⟩ := isSection
  intro found member
  rw [marks_eq mark.stop, isFrom.body, piecesFrom_between cut] at member
  obtain ⟨piece, listed, isMark⟩ := List.mem_filterMap.mp member
  rw [marks, cut]
  exact List.mem_filterMap.mpr ⟨piece, by simp [listed], isMark⟩

theorem body_infix : part.body.toList <:+: source.toList := by
  obtain ⟨before, mark, inside, next, after, cut, isFrom⟩ := isSection
  rw [← source_pieces source.toList, cut, isFrom.body]
  refine ⟨before.flatMap Piece.source ++ mark.source,
    next.source ++ after.flatMap Piece.source, ?_⟩
  simp [Piece.source]

end IsSectionOf

end Template

end Stencil
