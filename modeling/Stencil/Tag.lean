import Stencil.Expression.Evaluation

/-! # Tags

What a mark does is defined by a tag: an inline tag gives the text that replaces its mark, a block
tag handles the sections between its start and its end. Handlers are functions. They are called
with a `TagCall`, which also holds the two services of the engine that a handler may use:
rendering a text one level deeper, and loading a template by its name.

The first definition of a tag stays: a registry refuses a second one.
-/

namespace Stencil

/-- Everything that a tag handler is called with. -/
structure TagCall where
  /-- The name by which the tag was invoked: for a section of a block its own name. -/
  name : String
  arguments : Expression
  context : Context
  renderDeeper : String → Context → Result String
  load : String → Result (Option String)

namespace TagCall

/-- The value of the arguments as one expression. -/
def evaluate (call : TagCall) : Result Value :=
  call.arguments.evaluate call.context

/-- Renders a text in the context of the call, one level deeper than the tag. -/
def render (call : TagCall) (source : String) : Result String :=
  call.renderDeeper source call.context

end TagCall

/-- The text of a section, which is rendered only if a handler asks for it. -/
structure SectionBody where
  text : String
  renderDeeper : String → Context → Result String

/-- Renders the section in a context, one level deeper than the block. -/
def SectionBody.render (body : SectionBody) (context : Context) : Result String :=
  body.renderDeeper body.text context

/-- Gives the text that replaces the mark. -/
abbrev InlineHandler := TagCall → Result String

/-- Gives the output of a section, or nothing, and then the next section is tried. -/
abbrev SectionHandler := TagCall → SectionBody → Result (Option String)

/-- A tag that starts a new section inside a block, with a handler of its own or the block's. -/
structure SubTag where
  name : String
  handler : Option SectionHandler

/-- How a block is handled, what ends it, and what divides it into sections. -/
structure BlockTag where
  handler : SectionHandler
  endName : String
  subTags : List SubTag

/-- The sub-tag of a name; of several the first one counts. -/
def BlockTag.subTag? (block : BlockTag) (name : String) : Option SubTag :=
  block.subTags.find? fun subTag => subTag.name == name

/-- The definition of a tag. -/
inductive Tag
  | inline (handler : InlineHandler)
  | block (block : BlockTag)

/-- The tags in use, by their names. -/
structure TagRegistry where
  table : Table String Tag := { }

namespace TagRegistry

/-- The definition of a name. -/
def find? (tags : TagRegistry) (name : String) : Option Tag :=
  tags.table.find? name

/-- Adds a tag whose name is free. -/
def add (tags : TagRegistry) (name : String) (tag : Tag) : Result TagRegistry :=
  if tags.table.contains name then .error (.tagExists name)
  else .ok ⟨tags.table.insert name tag⟩

/-- The block tag of a name. -/
def block? (tags : TagRegistry) (name : String) : Option BlockTag :=
  match tags.find? name with
  | some (.block block) => some block
  | _ => none

/-- Whether a name is that of an inline tag. -/
def isInline (tags : TagRegistry) (name : String) : Bool :=
  match tags.find? name with
  | some (.inline _) => true
  | _ => false

/-- Whether a name is that of a block tag. -/
def isBlock (tags : TagRegistry) (name : String) : Bool :=
  (tags.block? name).isSome

end TagRegistry

/-- Checks the number of argument tokens of a tag. -/
def checkArgumentCount (tag : String) (found expected : Nat) : Result Unit :=
  if expected < found then .error (.tooManyArguments tag expected found)
  else if found < expected then .error (.missingArguments tag expected found)
  else .ok ()

end Stencil
