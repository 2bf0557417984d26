import Stencil.Tag
import Stencil.Template.Mark

/-! # Outlines

The outline of a template is the sequence of what is to be rendered: text, inline tags, and blocks
with their sections. Inside a block only the names of tags count. The block's own sub-tags and end
tag are looked for outside of the blocks nested in it; these are kept as a stack of the names that
end them. The bodies of sections stay text and get outlines of their own when they are rendered.

An outline stops at the first unknown tag or at a block without an end, and keeps what stands
before it.
-/

namespace Stencil

/-- A section of a block: the name and arguments of the tag that starts it, the handler in charge
of it, and the text up to the next section or the end of the block. -/
structure Section where
  name : String
  arguments : String
  handler : SectionHandler
  body : String

namespace Template

/-- What is rendered as a whole. -/
inductive Node
  | text (text : String)
  | inline (name arguments : String) (handler : InlineHandler)
  | block (sections : List Section)

/-- The nodes of a template up to its end or to the first failure. -/
structure Outline where
  nodes : List Node
  failure : Option Error

/-- A node in front of an outline. -/
def Outline.prepend (node : Node) (outline : Outline) : Outline :=
  ⟨node :: outline.nodes, outline.failure⟩

/-- A block whose end has not been reached. -/
structure OpenBlock where
  name : String
  position : Position
  tag : BlockTag
  /-- The sections that are complete, in order. -/
  sections : List Section
  current : Section
  /-- The names that end the blocks nested here, the innermost first. -/
  nested : List String

/-- What a mark does to an open block. -/
inductive BlockStep
  | more (block : OpenBlock)
  | closed (sections : List Section)

namespace OpenBlock

/-- The section that a mark starts. -/
def sectionOf (mark : Mark) (handler : SectionHandler) : Section :=
  ⟨mark.name, mark.arguments, handler, ""⟩

/-- The block that a mark starts. -/
def ofMark (mark : Mark) (tag : BlockTag) : OpenBlock :=
  ⟨mark.name, mark.position, tag, [], sectionOf mark tag.handler, []⟩

/-- The block with more text in its current section. -/
def addText (block : OpenBlock) (text : List Char) : OpenBlock :=
  { block with current.body := block.current.body ++ String.ofList text }

/-- The block with a mark kept as text in its current section. -/
def keepMark (block : OpenBlock) (mark : Mark) : OpenBlock :=
  block.addText mark.source

/-- The block whose current section has ended and whose next one is started by a mark. -/
def startSection (block : OpenBlock) (mark : Mark) (handler : Option SectionHandler) : OpenBlock :=
  { block with
    sections := block.sections ++ [block.current]
    current := sectionOf mark (handler.getD block.tag.handler) }

/-- The block after a tag that neither divides nor ends it: the tag may end the innermost nested
block or start another one. -/
def passTag (tags : TagRegistry) (block : OpenBlock) (name : String) : OpenBlock :=
  if block.nested.head? = some name then { block with nested := block.nested.tail }
  else
    match tags.block? name with
    | some tag => { block with nested := tag.endName :: block.nested }
    | none => block

/-- The block after a mark. Substitutions belong to the body, and so do the tags of nested blocks;
outside of those a sub-tag starts a section, and the end tag ends the block. -/
def step (tags : TagRegistry) (block : OpenBlock) (mark : Mark) : BlockStep :=
  match mark.kind with
  | .substitution => .more (block.keepMark mark)
  | .tag =>
    if block.nested.isEmpty then
      match block.tag.subTag? mark.name with
      | some subTag => .more (block.startSection mark subTag.handler)
      | none =>
        if mark.name = block.tag.endName then .closed (block.sections ++ [block.current])
        else .more ((block.passTag tags mark.name).keepMark mark)
    else .more ((block.passTag tags mark.name).keepMark mark)

end OpenBlock

/-- The outline of the pieces that follow, given the block that is open. -/
def outlineFrom (tags : TagRegistry) : Option OpenBlock → List Piece → Outline
  | none, [] => ⟨[], none⟩
  | some block, [] =>
    ⟨[], some (.unclosedBlock block.name block.position.line block.position.column)⟩
  | none, .text text :: rest => (outlineFrom tags none rest).prepend (.text (String.ofList text))
  | some block, .text text :: rest => outlineFrom tags (some (block.addText text)) rest
  | none, .mark mark :: rest =>
    match tags.find? mark.name with
    | some (.inline handler) =>
      (outlineFrom tags none rest).prepend (.inline mark.name mark.arguments handler)
    | some (.block tag) => outlineFrom tags (some (.ofMark mark tag)) rest
    | none => ⟨[], some (.unknownTag mark.name mark.position.line mark.position.column)⟩
  | some block, .mark mark :: rest =>
    match block.step tags mark with
    | .more block => outlineFrom tags (some block) rest
    | .closed sections => (outlineFrom tags none rest).prepend (.block sections)

/-- The outline of a template. -/
def outline (tags : TagRegistry) (source : String) : Outline :=
  outlineFrom tags none (pieces source.toList)

end Template

end Stencil
