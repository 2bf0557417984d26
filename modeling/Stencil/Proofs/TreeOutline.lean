import Stencil.Proofs.PrintedMarks
import Stencil.Tag.Standard
import Stencil.Template.Outline

/-! # Outlines of printed trees

The outline of a printed tree has a node for each part of the tree. While a block is open, a
printed part of its body is neutral: whatever is nested in it has been closed again behind it, and
its whole text has been added to the current section, `isNeutral_of_printsAll`. So the sections of
a printed conditional or loop are those of the tree.
-/

namespace Stencil.StandardTag

/-- The block of a conditional. -/
def conditionalBlock : BlockTag :=
  ⟨conditional, "endif", [⟨"elif", none⟩, ⟨"else", none⟩]⟩

/-- The block of a loop. -/
def loopBlock : BlockTag :=
  ⟨forLoop, "endfor", []⟩

theorem find?_all (name : String) : all.find? name =
    if name = "for" then some (.block loopBlock)
    else if name = "if" then some (.block conditionalBlock)
    else if name = "parse" then some (.inline parse)
    else if name = "include" then some (.inline includeTemplate)
    else none := by
  simp only [all, TagRegistry.find?, List.foldl_cons, List.foldl_nil, Table.find?_insert,
    Table.find?_empty]
  rfl

/-- The standard tags are these four. -/
theorem eq_of_find?_all {name : String} {tag : Tag} (found : all.find? name = some tag) :
    name = "for" ∧ tag = .block loopBlock ∨ name = "if" ∧ tag = .block conditionalBlock ∨
      name = "parse" ∧ tag = .inline parse ∨ name = "include" ∧ tag = .inline includeTemplate := by
  rw [find?_all] at found
  split at found
  · next isFor => exact .inl ⟨isFor, (Option.some.inj found).symm⟩
  · split at found
    · next isIf => exact .inr (.inl ⟨isIf, (Option.some.inj found).symm⟩)
    · split at found
      · next isParse => exact .inr (.inr (.inl ⟨isParse, (Option.some.inj found).symm⟩))
      · split at found
        · next isInclude => exact .inr (.inr (.inr ⟨isInclude, (Option.some.inj found).symm⟩))
        · cases found

/-- Two of them are inline tags. -/
theorem eq_of_find?_all_inline {name : String} {handler : InlineHandler}
    (found : all.find? name = some (.inline handler)) :
    name = "parse" ∧ handler = parse ∨ name = "include" ∧ handler = includeTemplate := by
  rcases eq_of_find?_all found with ⟨-, same⟩ | ⟨-, same⟩ | ⟨isParse, same⟩ | ⟨isInclude, same⟩
  · cases same
  · cases same
  · exact .inl ⟨isParse, Tag.inline.inj same⟩
  · exact .inr ⟨isInclude, Tag.inline.inj same⟩

end Stencil.StandardTag

namespace Stencil.Template

open StandardTag

variable {tags : TagRegistry}

section Neutral

namespace OpenBlock

/-- A conditional or a loop in which nothing but conditionals and loops is nested. -/
structure IsStandard (block : OpenBlock) : Prop where
  tag : block.tag = conditionalBlock ∨ block.tag = loopBlock
  nested : ∀ name ∈ block.nested, name = "endif" ∨ name = "endfor"

/-- The block in which another one with the given end is nested. -/
def enter (block : OpenBlock) (endName : String) : OpenBlock :=
  { block with nested := endName :: block.nested }

@[simp] theorem addText_nil (block : OpenBlock) : block.addText [] = block := by
  obtain ⟨name, position, tag, sections, ⟨_, _, _, body⟩, nested⟩ := block
  simp [addText]

@[simp] theorem addText_append (block : OpenBlock) (first second : List Char) :
    (block.addText first).addText second = block.addText (first ++ second) := by
  simp [addText, String.append_assoc]

private theorem addText_enter (block : OpenBlock) (endName : String) (text : List Char) :
    (block.enter endName).addText text = (block.addText text).enter endName := rfl

private theorem IsStandard.addText {block : OpenBlock} (isStandard : block.IsStandard)
    (text : List Char) : (block.addText text).IsStandard :=
  ⟨isStandard.tag, isStandard.nested⟩

private theorem IsStandard.enter {block : OpenBlock} (isStandard : block.IsStandard)
    {endName : String}
    (ends : endName = "endif" ∨ endName = "endfor") : (block.enter endName).IsStandard :=
  ⟨isStandard.tag, List.forall_mem_cons.mpr ⟨ends, isStandard.nested⟩⟩

/-- The tags that mean something to a block itself: it is divided by sub-tags and closed by its
end. -/
theorem step_of_nested {block : OpenBlock} {mark : Mark} (isTag : mark.kind = .tag)
    (inside : block.nested ≠ []) :
    block.step all mark = .more ((block.passTag all mark.name).keepMark mark) := by
  have filled : ¬ block.nested.isEmpty = true := by simpa using inside
  rw [step, isTag]
  simp only [if_neg filled]

private theorem step_of_foreign {block : OpenBlock} {mark : Mark} (isTag : mark.kind = .tag)
    (isStandard : block.IsStandard)
    (foreign : mark.name ∉ ["elif", "else", "endif", "endfor"]) :
    block.step all mark = .more ((block.passTag all mark.name).keepMark mark) := by
  simp only [List.mem_cons, List.not_mem_nil, or_false, not_or] at foreign
  obtain ⟨noElif, noElse, noEndIf, noEndFor⟩ := foreign
  have notEnd : mark.name ≠ block.tag.endName := by
    rcases isStandard.tag with tag | tag <;> rw [tag]
    · exact noEndIf
    · exact noEndFor
  have notDividing : block.tag.subTag? mark.name = none := by
    rcases isStandard.tag with tag | tag <;> rw [tag]
    · simp [BlockTag.subTag?, conditionalBlock, Ne.symm noElif, Ne.symm noElse]
    · rfl
  rw [step, isTag]
  simp only [notDividing, if_neg notEnd]
  split <;> rfl

private theorem not_nested_of_foreign {block : OpenBlock} (isStandard : block.IsStandard)
    {name : String} (foreign : name ∉ ["elif", "else", "endif", "endfor"]) :
    ¬ block.nested.head? = some name := by
  intro head
  apply foreign
  rcases isStandard.nested name (List.mem_of_head? head) with rfl | rfl <;> decide

/-- A tag that starts no block and ends none is kept. -/
theorem step_inline {block : OpenBlock} {mark : Mark} (isTag : mark.kind = .tag)
    (isStandard : block.IsStandard) (notBlock : all.block? mark.name = none)
    (foreign : mark.name ∉ ["elif", "else", "endif", "endfor"]) :
    block.step all mark = .more (block.keepMark mark) := by
  rw [step_of_foreign isTag isStandard foreign, passTag,
    if_neg (not_nested_of_foreign isStandard foreign), notBlock]

/-- A tag that starts a block nests it. -/
theorem step_opening {block : OpenBlock} {mark : Mark} (isTag : mark.kind = .tag)
    (isStandard : block.IsStandard) {tag : BlockTag} (isBlock : all.block? mark.name = some tag)
    (foreign : mark.name ∉ ["elif", "else", "endif", "endfor"]) :
    block.step all mark = .more ((block.enter tag.endName).keepMark mark) := by
  rw [step_of_foreign isTag isStandard foreign, passTag,
    if_neg (not_nested_of_foreign isStandard foreign), isBlock]
  rfl

/-- The end of the innermost nested block closes it. -/
theorem step_closing {block : OpenBlock} {mark : Mark} (isTag : mark.kind = .tag) :
    (block.enter mark.name).step all mark = .more (block.keepMark mark) := by
  have innermost : (block.enter mark.name).nested.head? = some mark.name := rfl
  rw [step_of_nested isTag (List.cons_ne_nil _ _), passTag, if_pos innermost]
  rfl

/-- A sub-tag inside a nested block is kept. -/
theorem step_branch {block : OpenBlock} {mark : Mark} (isTag : mark.kind = .tag)
    (isStandard : block.IsStandard) (inside : block.nested ≠ [])
    (branch : mark.name = "elif" ∨ mark.name = "else") :
    block.step all mark = .more (block.keepMark mark) := by
  have notBlock : all.block? mark.name = none := by
    rw [TagRegistry.block?, find?_all]
    rcases branch with name | name <;> rw [name] <;> rfl
  have notNested : ¬ block.nested.head? = some mark.name := by
    intro head
    rcases isStandard.nested mark.name (List.mem_of_head? head) with ends | ends <;>
      rcases branch with name | name <;> rw [ends] at name <;> revert name <;> decide
  rw [step_of_nested isTag inside, passTag, if_neg notNested, notBlock]

end OpenBlock

private theorem outlineFrom_some_consText (block : OpenBlock) (c : Char) (rest : List Piece) :
    outlineFrom tags (some block) (consText c rest) =
      outlineFrom tags (some (block.addText [c])) rest := by
  rw [consText.eq_def]
  split
  · rw [outlineFrom, outlineFrom, OpenBlock.addText_append]
    rfl
  · rw [outlineFrom]

/-- A mark that is kept in a block moves the block as the text of the mark does. -/
theorem outlineFrom_of_kept {kind : MarkKind} {name arguments : String} {source : List Char}
    (isMark : IsMark kind name arguments source) {block next : OpenBlock}
    (stepped : ∀ mark : Mark, mark.kind = kind → mark.name = name →
      block.step tags mark = .more (next.keepMark mark))
    (position : Position) (rest : List Char) :
    outlineFrom tags (some block) (piecesFrom position (source ++ rest)) =
      outlineFrom tags (some (next.addText source))
        (piecesFrom (position.advanceBy source) rest) := by
  obtain ⟨mark, isKind, named, -, same, cut⟩ := isMark position
  rw [cut, outlineFrom, stepped mark isKind named, OpenBlock.keepMark, same]

theorem outlineFrom_some_foldr_consText (block : OpenBlock) (chars : List Char)
    (rest : List Piece) :
    outlineFrom tags (some block) (chars.foldr consText rest) =
      outlineFrom tags (some (block.addText chars)) rest := by
  induction chars generalizing block with
  | nil => simp
  | cons c others ih =>
    rw [List.foldr_cons, outlineFrom_some_consText, ih, OpenBlock.addText_append]
    rfl

/-- Text in which no mark can start is added to the current section. -/
theorem outlineFrom_plain (block : OpenBlock) {chars : List Char} (plain : '\x7b' ∉ chars)
    (position : Position) (rest : List Char) :
    outlineFrom tags (some block) (piecesFrom position (chars ++ rest)) =
      outlineFrom tags (some (block.addText chars))
        (piecesFrom (position.advanceBy chars) rest) := by
  rw [piecesFrom_plain_append plain, outlineFrom_some_foldr_consText]

/-- The mark of a block tag opens the block with an empty section. -/
theorem outlineFrom_opens {name arguments : String} {source : List Char} {tag : BlockTag}
    (isMark : IsMark .tag name arguments source) (found : tags.find? name = some (.block tag))
    (position : Position) (rest : List Char) :
    ∃ block : OpenBlock, block.tag = tag ∧ block.nested = [] ∧ block.sections = [] ∧
      block.current = ⟨name, arguments, tag.handler, ""⟩ ∧
      outlineFrom tags none (piecesFrom position (source ++ rest)) =
        outlineFrom tags (some block) (piecesFrom (position.advanceBy source) rest) := by
  obtain ⟨mark, -, rfl, rfl, -, cut⟩ := isMark position
  refine ⟨.ofMark mark tag, rfl, rfl, rfl, rfl, ?_⟩
  rw [cut, outlineFrom, found]

/-- The mark of the end tag closes the block when nothing is nested. -/
theorem outlineFrom_closes {block : OpenBlock} {arguments : String} {source : List Char}
    (isMark : IsMark .tag block.tag.endName arguments source)
    (noSubTag : block.tag.subTag? block.tag.endName = none) (noneNested : block.nested = [])
    (position : Position) (rest : List Char) :
    outlineFrom tags (some block) (piecesFrom position (source ++ rest)) =
      (outlineFrom tags none (piecesFrom (position.advanceBy source) rest)).prepend
        (.block (block.sections ++ [block.current])) := by
  obtain ⟨mark, isTag, named, -, -, cut⟩ := isMark position
  have closes : block.step tags mark = .closed (block.sections ++ [block.current]) := by
    rw [OpenBlock.step, isTag]
    simp only [noneNested, List.isEmpty_nil, if_true, named, noSubTag]
  rw [cut, outlineFrom, closes]

/-- The block whose current section has ended and which goes on with another one. -/
def OpenBlock.goOn (block : OpenBlock) (current : Section) : OpenBlock :=
  { block with
    sections := block.sections ++ [block.current]
    current := current }

/-- The mark of a sub-tag ends the current section and starts another one when nothing is nested. -/
theorem outlineFrom_divides {block : OpenBlock} {name arguments : String} {source : List Char}
    {subTag : SubTag} (isMark : IsMark .tag name arguments source)
    (divides : block.tag.subTag? name = some subTag) (noneNested : block.nested = [])
    (position : Position) (rest : List Char) :
    outlineFrom tags (some block) (piecesFrom position (source ++ rest)) =
      outlineFrom tags
        (some (block.goOn ⟨name, arguments, subTag.handler.getD block.tag.handler, ""⟩))
        (piecesFrom (position.advanceBy source) rest) := by
  obtain ⟨mark, isTag, rfl, rfl, -, cut⟩ := isMark position
  have starts : block.step tags mark = .more (block.startSection mark subTag.handler) := by
    rw [OpenBlock.step, isTag]
    simp only [noneNested, List.isEmpty_nil, if_true, divides]
  rw [cut, outlineFrom, starts]
  rfl

/-- A text that moves every conditional and loop as plain text does, or, if it is neutral in
nested blocks only, every one in which a block is nested. -/
def IsNeutral (nestedOnly : Bool) (source : List Char) : Prop :=
  ∀ (block : OpenBlock) (position : Position) (rest : List Char), block.IsStandard →
    (nestedOnly = true → block.nested ≠ []) →
    outlineFrom all (some block) (piecesFrom position (source ++ rest)) =
      outlineFrom all (some (block.addText source)) (piecesFrom (position.advanceBy source) rest)

private theorem isNeutral_nil (nestedOnly : Bool) : IsNeutral nestedOnly [] := by
  intro block position rest _ _
  simp [Position.advanceBy]

private theorem isNeutral_append {nestedOnly : Bool} {first second : List Char}
    (firstNeutral : IsNeutral nestedOnly first) (secondNeutral : IsNeutral nestedOnly second) :
    IsNeutral nestedOnly (first ++ second) := by
  intro block position rest isStandard inside
  rw [List.append_assoc, firstNeutral block position _ isStandard inside,
    secondNeutral _ _ rest (isStandard.addText first) inside, OpenBlock.addText_append,
    Position.advanceBy_append]

private theorem IsNeutral.inNested {source : List Char} (neutral : IsNeutral false source) :
    IsNeutral true source :=
  fun block position rest isStandard _ => neutral block position rest isStandard nofun

private theorem isNeutral_of_plain {chars : List Char} (plain : '\x7b' ∉ chars) :
    IsNeutral false chars :=
  fun block position rest _ _ => outlineFrom_plain block plain position rest

/-- A tag that starts a block, as a printing of it is cut out. -/
structure IsBlockTag (name : String) (tag : BlockTag) : Prop where
  isBlock : all.block? name = some tag
  word : IsTagName name
  endWord : IsTagName tag.endName
  foreign : name ∉ ["elif", "else", "endif", "endfor"]
  ends : tag.endName = "endif" ∨ tag.endName = "endfor"
  noSubTag : tag.subTag? tag.endName = none
  standard : tag = conditionalBlock ∨ tag = loopBlock

private theorem isBlockTag_conditional : IsBlockTag "if" conditionalBlock where
  isBlock := by rw [TagRegistry.block?, find?_all]; rfl
  word := isTagName_of_all (by decide) (by decide)
  endWord := isTagName_of_all (by decide) (by decide)
  foreign := by decide
  ends := .inl rfl
  noSubTag := rfl
  standard := .inl rfl

private theorem isBlockTag_loop : IsBlockTag "for" loopBlock where
  isBlock := by rw [TagRegistry.block?, find?_all]; rfl
  word := isTagName_of_all (by decide) (by decide)
  endWord := isTagName_of_all (by decide) (by decide)
  foreign := by decide
  ends := .inr rfl
  noSubTag := rfl
  standard := .inr rfl

/-- A nested block is neutral if its inside is. -/
theorem isNeutral_nested {name : String} {tag : BlockTag} (isBlockTag : IsBlockTag name tag)
    {header : TagText} {opening inside closing : List Char}
    (opened : PrintsTag name header opening) (neutral : IsNeutral true inside)
    (closed : PrintsTag tag.endName .none closing) :
    IsNeutral false (opening ++ inside ++ closing) := by
  intro block position rest isStandard _
  have starts (mark : Mark) (isTag : mark.kind = .tag) (named : mark.name = name) :
      block.step all mark = .more ((block.enter tag.endName).keepMark mark) := by
    subst named
    exact OpenBlock.step_opening isTag isStandard isBlockTag.isBlock isBlockTag.foreign
  have stops (mark : Mark) (isTag : mark.kind = .tag) (named : mark.name = tag.endName) :
      (((block.enter tag.endName).addText opening).addText inside).step all mark =
        .more (((block.addText opening).addText inside).keepMark mark) := by
    rw [OpenBlock.addText_enter, OpenBlock.addText_enter, ← named]
    exact OpenBlock.step_closing isTag
  have nested : ((block.enter tag.endName).addText opening).IsStandard :=
    (isStandard.enter isBlockTag.ends).addText opening
  rw [List.append_assoc, List.append_assoc,
    outlineFrom_of_kept (isMark_of_printsTag isBlockTag.word opened) starts,
    neutral _ _ _ nested fun _ => List.cons_ne_nil _ _,
    outlineFrom_of_kept (isMark_of_printsTag isBlockTag.endWord closed) stops]
  simp only [OpenBlock.addText_append, Position.advanceBy_append, List.append_assoc]

/-- A tag that starts a section is neutral where a block is nested. -/
theorem isNeutral_branchTag {kind : BranchKind} {arguments : TagText} {source : List Char}
    (printed : PrintsTag kind.name arguments source) : IsNeutral true source := by
  intro block position rest isStandard inside
  refine outlineFrom_of_kept (isMark_of_printsTag (isTagName_branch kind) printed) ?_ position rest
  intro mark isTag named
  refine OpenBlock.step_branch isTag isStandard (inside rfl) ?_
  rw [named]
  cases kind
  · exact .inl rfl
  · exact .inr rfl

private theorem isNeutral_substitution {expression : SubstitutionText} {source : List Char}
    (printed : PrintsSubstitution expression source) : IsNeutral false source := by
  intro block position rest _ _
  refine outlineFrom_of_kept (isMark_of_printsSubstitution printed) ?_ position rest
  intro mark isSubstitution _
  rw [OpenBlock.step, isSubstitution]

private theorem isNeutral_inline {name : String} {arguments : TagText} {source : List Char}
    (word : IsTagName name) (inline : name = "parse" ∨ name = "include")
    (printed : PrintsTag name arguments source) : IsNeutral false source := by
  intro block position rest isStandard _
  refine outlineFrom_of_kept (isMark_of_printsTag word printed) ?_ position rest
  intro mark isTag named
  have notBlock : all.block? mark.name = none := by
    rw [TagRegistry.block?, find?_all, named]
    rcases inline with rfl | rfl <;> rfl
  refine OpenBlock.step_inline isTag isStandard notBlock ?_
  rw [named]
  rcases inline with rfl | rfl <;> decide

mutual

/-- A printed part of a template is neutral. -/
theorem isNeutral_of_prints : ∀ (node : TreeNode) (source : List Char), node.Prints source →
    IsNeutral false source
  | .text content, _, printed => by
    obtain rfl := printed
    exact isNeutral_of_plain content.noOpener
  | .substitution _, _, printed => isNeutral_substitution printed
  | .parse _, _, printed => isNeutral_inline isTagName_parse (.inl rfl) printed
  | .inclusion _, _, printed => isNeutral_inline isTagName_include (.inr rfl) printed
  | .conditional _ body branches, _, printed => by
    obtain ⟨opening, bodySource, branchesSource, closing, opened, bodyPrinted, branchesPrinted,
      closed, rfl⟩ := printed
    have bodyNeutral := (isNeutral_of_printsAll body bodySource bodyPrinted).inNested
    have branchesNeutral := isNeutral_of_printsBranches branches branchesSource branchesPrinted
    rw [List.append_assoc opening]
    exact isNeutral_nested isBlockTag_conditional opened
      (isNeutral_append bodyNeutral branchesNeutral) closed
  | .loop _ body, _, printed => by
    obtain ⟨opening, bodySource, closing, opened, bodyPrinted, closed, rfl⟩ := printed
    have bodyNeutral := (isNeutral_of_printsAll body bodySource bodyPrinted).inNested
    exact isNeutral_nested isBlockTag_loop opened bodyNeutral closed

/-- A printed template is neutral. -/
theorem isNeutral_of_printsAll : ∀ (tree : List TreeNode) (source : List Char),
    PrintsAll tree source → IsNeutral false source
  | [], _, printed => by
    obtain rfl := printed
    exact isNeutral_nil false
  | node :: rest, _, printed => by
    obtain ⟨first, others, firstPrinted, othersPrinted, rfl⟩ := printed
    exact isNeutral_append (isNeutral_of_prints node first firstPrinted)
      (isNeutral_of_printsAll rest others othersPrinted)

/-- The printed sections of a conditional are neutral where it is nested. -/
theorem isNeutral_of_printsBranches : ∀ (branches : List TreeBranch) (source : List Char),
    PrintsBranches branches source → IsNeutral true source
  | [], _, printed => by
    obtain rfl := printed
    exact isNeutral_nil true
  | .mk _ _ body :: rest, _, printed => by
    obtain ⟨opening, bodySource, others, opened, bodyPrinted, othersPrinted, rfl⟩ := printed
    have bodyNeutral := (isNeutral_of_printsAll body bodySource bodyPrinted).inNested
    exact isNeutral_append (isNeutral_append (isNeutral_branchTag opened) bodyNeutral)
      (isNeutral_of_printsBranches rest others othersPrinted)

end

end Neutral

section Nodes

/-- The section of a block that is the reading of a section of a tree. -/
structure IsSection (name : String) (arguments : TagText) (body : List TreeNode)
    (handler : SectionHandler) (found : Section) : Prop where
  name : found.name = name
  arguments : found.arguments = argumentText arguments.chars
  handler : found.handler = handler
  body : PrintsAll body found.body.toList

/-- The sections that are the readings of the further sections of a conditional. -/
def AreSections : List TreeBranch → List Section → Prop
  | [], sections => sections = []
  | .mk kind arguments body :: rest, sections =>
    ∃ first others, IsSection kind.name arguments body conditional first ∧
      AreSections rest others ∧ sections = first :: others

theorem outlineFrom_inline {tags : TagRegistry} {name arguments : String} {kind : MarkKind}
    {source : List Char} {handler : InlineHandler} (isMark : IsMark kind name arguments source)
    (found : tags.find? name = some (.inline handler)) (position : Position) (rest : List Char) :
    outlineFrom tags none (piecesFrom position (source ++ rest)) =
      (outlineFrom tags none (piecesFrom (position.advanceBy source) rest)).prepend
        (.inline name arguments handler) := by
  obtain ⟨mark, -, rfl, rfl, -, cut⟩ := isMark position
  rw [cut, outlineFrom, found]

/-- The first section of a block, or the next one, with nothing in it. -/
def emptySection (name : String) (arguments : TagText) (handler : SectionHandler) : Section :=
  ⟨name, argumentText arguments.chars, handler, ""⟩

/-- A tag that starts a block opens it with an empty section. -/
theorem outlineFrom_opening {name : String} {tag : BlockTag} (isBlockTag : IsBlockTag name tag)
    {header : TagText} {source : List Char} (printed : PrintsTag name header source)
    (position : Position) (rest : List Char) :
    ∃ block : OpenBlock, block.tag = tag ∧ block.nested = [] ∧ block.sections = [] ∧
      block.current = emptySection name header tag.handler ∧
      outlineFrom all none (piecesFrom position (source ++ rest)) =
        outlineFrom all (some block) (piecesFrom (position.advanceBy source) rest) := by
  have found : all.find? name = some (.block tag) := by
    have isBlock := isBlockTag.isBlock
    rw [TagRegistry.block?] at isBlock
    split at isBlock
    · next found =>
      cases isBlock
      exact found
    · cases isBlock
  exact outlineFrom_opens (isMark_of_printsTag isBlockTag.word printed) found position rest

/-- The end tag of a block closes it when nothing is nested. -/
theorem outlineFrom_closing {name : String} {tag : BlockTag} (isBlockTag : IsBlockTag name tag)
    {source : List Char} (printed : PrintsTag tag.endName .none source) {block : OpenBlock}
    (sameTag : block.tag = tag) (noneNested : block.nested = []) (position : Position)
    (rest : List Char) :
    outlineFrom all (some block) (piecesFrom position (source ++ rest)) =
      (outlineFrom all none (piecesFrom (position.advanceBy source) rest)).prepend
        (.block (block.sections ++ [block.current])) := by
  subst sameTag
  exact outlineFrom_closes (isMark_of_printsTag isBlockTag.endWord printed) isBlockTag.noSubTag
    noneNested position rest

/-- A sub-tag of a conditional ends the current section and starts another one. -/
theorem outlineFrom_branchTag {kind : BranchKind} {arguments : TagText} {source : List Char}
    (printed : PrintsTag kind.name arguments source) {block : OpenBlock}
    (sameTag : block.tag = conditionalBlock) (noneNested : block.nested = [])
    (position : Position) (rest : List Char) :
    outlineFrom all (some block) (piecesFrom position (source ++ rest)) =
      outlineFrom all (some (block.goOn (emptySection kind.name arguments conditional)))
        (piecesFrom (position.advanceBy source) rest) := by
  have divides : block.tag.subTag? kind.name = some ⟨kind.name, none⟩ := by
    rw [sameTag]
    cases kind <;> rfl
  rw [outlineFrom_divides (isMark_of_printsTag (isTagName_branch kind) printed) divides noneNested,
    Option.getD_none, sameTag]
  rfl

/-- The body of a section becomes its text. -/
theorem outlineFrom_body (block : OpenBlock) {body : List TreeNode} {source : List Char}
    (printed : PrintsAll body source)
    (sameTag : block.tag = conditionalBlock ∨ block.tag = loopBlock)
    (noneNested : block.nested = []) (position : Position) (rest : List Char) :
    outlineFrom all (some block) (piecesFrom position (source ++ rest)) =
      outlineFrom all (some (block.addText source))
        (piecesFrom (position.advanceBy source) rest) := by
  have isStandard : block.IsStandard := ⟨sameTag, by simp [noneNested]⟩
  exact isNeutral_of_printsAll body source printed block position rest isStandard nofun

private theorem isSection_addText (block : OpenBlock) {name : String} {arguments : TagText}
    {handler : SectionHandler} (empty : block.current = emptySection name arguments handler)
    {body : List TreeNode} {source : List Char} (printed : PrintsAll body source) :
    IsSection name arguments body handler (block.addText source).current := by
  have current : (block.addText source).current =
      ⟨name, argumentText arguments.chars, handler, String.ofList source⟩ := by
    rw [OpenBlock.addText, empty, emptySection, String.empty_append]
  rw [current]
  exact ⟨rfl, rfl, rfl, by rwa [String.toList_ofList]⟩

/-- The further sections of a conditional, up to its end. -/
theorem outlineFrom_branches : ∀ (branches : List TreeBranch) (source closing : List Char)
    (block : OpenBlock) (position : Position) (rest : List Char),
    PrintsBranches branches source → PrintsTag "endif" .none closing →
    block.tag = conditionalBlock → block.nested = [] →
    ∃ sections, AreSections branches sections ∧
      outlineFrom all (some block) (piecesFrom position (source ++ closing ++ rest)) =
        (outlineFrom all none (piecesFrom (position.advanceBy (source ++ closing)) rest)).prepend
          (.block (block.sections ++ block.current :: sections))
  | [], _, closing, block, position, rest, printed, closed, sameTag, noneNested => by
    obtain rfl := printed
    exact ⟨[], rfl,
      outlineFrom_closing isBlockTag_conditional closed sameTag noneNested position rest⟩
  | .mk kind arguments body :: branches, _, closing, block, position, rest, printed, closed,
      sameTag, noneNested => by
    obtain ⟨opening, bodySource, others, opened, bodyPrinted, othersPrinted, rfl⟩ := printed
    have tagRead := outlineFrom_branchTag opened sameTag noneNested position
      (bodySource ++ (others ++ closing ++ rest))
    have bodyRead := outlineFrom_body (block.goOn (emptySection kind.name arguments conditional))
      bodyPrinted (.inl sameTag) noneNested (position.advanceBy opening) (others ++ closing ++ rest)
    obtain ⟨sections, areSections, sectionsRead⟩ := outlineFrom_branches branches others closing
      ((block.goOn (emptySection kind.name arguments conditional)).addText bodySource)
      ((position.advanceBy opening).advanceBy bodySource) rest othersPrinted closed sameTag
      noneNested
    have isSection := isSection_addText
      (block.goOn (emptySection kind.name arguments conditional)) rfl bodyPrinted
    refine ⟨_ :: sections, ⟨_, sections, isSection, areSections, rfl⟩, ?_⟩
    have regroup : opening ++ bodySource ++ others ++ closing ++ rest =
        opening ++ (bodySource ++ (others ++ closing ++ rest)) := by simp
    rw [regroup, tagRead, bodyRead, sectionsRead]
    simp [OpenBlock.goOn, OpenBlock.addText]

/-- A printed conditional is a block with the sections of the tree. -/
theorem outlineFrom_conditional {condition : TagText} {body : List TreeNode}
    {branches : List TreeBranch} {source : List Char}
    (printed : (TreeNode.conditional condition body branches).Prints source)
    (position : Position) (rest : List Char) :
    ∃ first sections, IsSection "if" condition body conditional first ∧
      AreSections branches sections ∧
      outlineFrom all none (piecesFrom position (source ++ rest)) =
        (outlineFrom all none (piecesFrom (position.advanceBy source) rest)).prepend
          (.block (first :: sections)) := by
  obtain ⟨opening, bodySource, branchesSource, closing, opened, bodyPrinted, branchesPrinted,
    closed, rfl⟩ := printed
  obtain ⟨block, sameTag, noneNested, noSections, empty, tagRead⟩ :=
    outlineFrom_opening isBlockTag_conditional opened position
      (bodySource ++ (branchesSource ++ closing ++ rest))
  have bodyRead := outlineFrom_body block bodyPrinted (.inl sameTag) noneNested
    (position.advanceBy opening) (branchesSource ++ closing ++ rest)
  obtain ⟨sections, areSections, sectionsRead⟩ := outlineFrom_branches branches branchesSource
    closing (block.addText bodySource) ((position.advanceBy opening).advanceBy bodySource) rest
    branchesPrinted closed sameTag noneNested
  refine ⟨_, sections, isSection_addText block empty bodyPrinted, areSections, ?_⟩
  have noneBefore : (block.addText bodySource).sections = [] := noSections
  have regroup : opening ++ bodySource ++ branchesSource ++ closing ++ rest =
      opening ++ (bodySource ++ (branchesSource ++ closing ++ rest)) := by simp
  rw [regroup, tagRead, bodyRead, sectionsRead, noneBefore]
  simp

/-- A printed loop is a block with one section. -/
theorem outlineFrom_loop {header : TagText} {body : List TreeNode} {source : List Char}
    (printed : (TreeNode.loop header body).Prints source) (position : Position)
    (rest : List Char) :
    ∃ first, IsSection "for" header body forLoop first ∧
      outlineFrom all none (piecesFrom position (source ++ rest)) =
        (outlineFrom all none (piecesFrom (position.advanceBy source) rest)).prepend
          (.block [first]) := by
  obtain ⟨opening, bodySource, closing, opened, bodyPrinted, closed, rfl⟩ := printed
  obtain ⟨block, sameTag, noneNested, noSections, empty, tagRead⟩ :=
    outlineFrom_opening isBlockTag_loop opened position (bodySource ++ (closing ++ rest))
  have bodyRead := outlineFrom_body block bodyPrinted (.inr sameTag) noneNested
    (position.advanceBy opening) (closing ++ rest)
  have endRead := outlineFrom_closing isBlockTag_loop closed
    (show (block.addText bodySource).tag = loopBlock from sameTag) noneNested
    ((position.advanceBy opening).advanceBy bodySource) rest
  refine ⟨_, isSection_addText block empty bodyPrinted, ?_⟩
  have noneBefore : (block.addText bodySource).sections = [] := noSections
  have regroup : opening ++ bodySource ++ closing ++ rest =
      opening ++ (bodySource ++ (closing ++ rest)) := by simp
  rw [regroup, tagRead, bodyRead, endRead, noneBefore]
  simp

end Nodes

end Stencil.Template
