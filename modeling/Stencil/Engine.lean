import Stencil.Expression.Reading
import Stencil.Loader
import Stencil.Tag.Standard
import Stencil.Template.Outline

/-! # Engines

An engine holds what templates are rendered with: delimiters, tags, named templates, a loader for
further ones, and two options. Rendering a template renders the nodes of its outline in order.
A handler that renders a text does so one level deeper, and the number of levels is limited: the
levels that are left bound the recursion.
-/

namespace Stencil

/-- How deep bodies and included templates may nest, and whether the bodies of sections are
trimmed. -/
structure Options where
  recursionLimit : Nat := 32
  stripBodies : Bool := true
  deriving DecidableEq, Repr

/-- What templates are rendered with. -/
structure Engine where
  delimiters : Delimiters := .standard
  tags : TagRegistry := StandardTag.all
  templates : TemplateStore := { }
  loader : Option Loader := none
  options : Options := { }

namespace Engine

/-- Adds delimiters, see `Delimiters.register`. -/
def registerLiteral (engine : Engine) (start : String) (close : Option String)
    (kind : LiteralKind) (escape : Option Char) : Result Engine := do
  return { engine with delimiters := ← engine.delimiters.register start close kind escape }

/-- Adds a tag, see `TagRegistry.add`. -/
def registerTag (engine : Engine) (name : String) (tag : Tag) : Result Engine := do
  return { engine with tags := ← engine.tags.add name tag }

/-- Adds a named template, see `TemplateStore.add`. -/
def addTemplate (engine : Engine) (name source : String) : Result Engine := do
  return { engine with templates := ← engine.templates.add name source }

/-- The source of a named template: the added ones come first, then the loader is asked. -/
def load (engine : Engine) (name : String) : Result (Option String) :=
  match engine.templates.find? name, engine.loader with
  | some source, _ => .ok (some source)
  | none, some loader => loader name
  | none, none => .ok none

theorem load_of_noLoader {engine : Engine} (noLoader : engine.loader = none) (name : String) :
    engine.load name = .ok (engine.templates.find? name) := by
  rw [load, noLoader]
  cases engine.templates.find? name <;> rfl

/-- Reads an expression. -/
def read (engine : Engine) (text : String) : Result Expression :=
  Expression.read engine.delimiters text

/-- Reads and evaluates an expression. -/
def evaluate (engine : Engine) (context : Context) (text : String) : Result Value := do
  (← engine.read text).evaluate context

/-- The call of a tag. -/
def call (engine : Engine) (deeper : String → Context → Result String) (context : Context)
    (name arguments : String) : Result TagCall := do
  return ⟨name, ← engine.read arguments, context, deeper, engine.load⟩

/-- The body of a section as its handler sees it. -/
def sectionBody (engine : Engine) (deeper : String → Context → Result String) (body : String) :
    SectionBody :=
  ⟨if engine.options.stripBodies then String.ofList (Text.trim body.toList) else body, deeper⟩

/-- The output of the first section that has any. The arguments of the later ones are not read. -/
def renderSections (engine : Engine) (deeper : String → Context → Result String)
    (context : Context) : List Section → Result String
  | [] => .ok ""
  | head :: rest => do
    let call ← engine.call deeper context head.name head.arguments
    match ← head.handler call (engine.sectionBody deeper head.body) with
    | some output => return output
    | none => renderSections engine deeper context rest

/-- The text of a node. -/
def renderNode (engine : Engine) (deeper : String → Context → Result String)
    (context : Context) : Template.Node → Result String
  | .text text => .ok text
  | .inline name arguments handler => do handler (← engine.call deeper context name arguments)
  | .block sections => engine.renderSections deeper context sections

/-- The text of an outline. -/
def renderOutline (engine : Engine) (deeper : String → Context → Result String)
    (context : Context) (outline : Template.Outline) : Result String := do
  let parts ← outline.nodes.mapM (engine.renderNode deeper context)
  match outline.failure with
  | some failure => throw failure
  | none => return String.join parts

/-- Renders a text with a number of levels left. -/
def renderWithin (engine : Engine) : Nat → String → Context → Result String
  | 0, _, _ => .error (.recursionLimit engine.options.recursionLimit)
  | levels + 1, source, context =>
    engine.renderOutline (engine.renderWithin levels) context
      (Template.outline engine.tags source)

/-- Renders the source of a template. -/
def renderSource (engine : Engine) (source : String) (context : Context) : Result String :=
  engine.renderWithin (engine.options.recursionLimit + 1) source context

/-- Renders a named template. -/
def render (engine : Engine) (name : String) (context : Context) : Result String := do
  match ← engine.load name with
  | some source => engine.renderSource source context
  | none => throw (.templateMissing name)

end Engine

end Stencil
