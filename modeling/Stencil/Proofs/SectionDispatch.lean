import Stencil.Proofs.FirstDefinitions
import Stencil.Proofs.TreeOutline

/-! # The section that answers

A written block of any tag, with text in which no mark starts between its tags, has one section
for each of its tags but the last one, `Template.outlineFrom_block`. The handler of a section sees
what stands in its tag and behind it, `WrittenSection.answer`, and the first section that has an
output, or fails, decides what the block is rendered to: `Engine.renderSource_sections`.
-/

namespace Stencil

open Template

/-- The handler in charge of the sections that a tag starts inside a block: that of the sub-tag if
it has one, and the block's otherwise. -/
def BlockTag.handlerOf (block : BlockTag) (name : String) : SectionHandler :=
  ((block.subTag? name).bind SubTag.handler).getD block.handler

/-- What is written in a tag. Without a name there are no arguments. -/
structure WrittenTag where
  name : String
  arguments : TagText
  visible : ∀ c ∈ name.toList, Text.isBlank c = false
  noCloser : ¬ ['%', '\x7d'] <:+: name.toList
  named : name.toList = [] → arguments.chars = []

/-- A tag whose name holds no percent sign. -/
def WrittenTag.ofWord {name : String} (word : IsTagName name) (arguments : TagText) :
    WrittenTag :=
  ⟨name, arguments, word.visible, word.noCloser_infix, fun none => absurd none word.filled⟩

/-- The printings of a written tag. -/
def WrittenTag.Prints (tag : WrittenTag) (source : List Char) : Prop :=
  PrintsTag tag.name tag.arguments source

private theorem WrittenTag.isMark {tag : WrittenTag} {source : List Char}
    (printed : tag.Prints source) :
    IsMark .tag tag.name (argumentText tag.arguments.chars) source :=
  isMark_of_visible tag.visible tag.noCloser tag.named printed

/-- A tag inside a block and the text up to the next tag. -/
structure WrittenSection where
  tag : WrittenTag
  body : PlainText

/-- The printings of sections one behind the other. -/
def PrintsSections : List WrittenSection → List Char → Prop
  | [], source => source = []
  | written :: rest, source =>
    ∃ opening others, written.tag.Prints opening ∧ PrintsSections rest others ∧
      source = opening ++ written.body.chars ++ others

/-- The printings of a block: its sections, and the tag that ends it. -/
def PrintsBlock (sections : List WrittenSection) (ending : WrittenTag) (source : List Char) :
    Prop :=
  ∃ inside closing, PrintsSections sections inside ∧ ending.Prints closing ∧
    source = inside ++ closing

namespace WrittenSection

/-- The section of a block that is made of a written one. -/
def toSection (written : WrittenSection) (handler : SectionHandler) : Section :=
  ⟨written.tag.name, argumentText written.tag.arguments.chars, handler,
    String.ofList written.body.chars⟩

/-- The answer of a handler to a written section. The handler is called with the name of the tag,
its arguments as tokens, and the text up to the next tag, which is trimmed if the engine says so;
it is not called if the arguments are not read. -/
def answer (written : WrittenSection) (engine : Engine) (context : Context)
    (handler : SectionHandler) : Result (Option String) := do
  let tokens ← engine.read (argumentText written.tag.arguments.chars)
  let deeper := engine.renderWithin engine.options.recursionLimit
  let text :=
    if engine.options.stripBodies then Text.trim written.body.chars else written.body.chars
  handler ⟨written.tag.name, tokens, context, deeper, engine.load⟩ ⟨String.ofList text, deeper⟩

end WrittenSection

namespace Template

variable {tags : TagRegistry}

/-- A sub-tag and the text behind it end the current section and make the next one. -/
theorem outlineFrom_section {block : OpenBlock} (noneNested : block.nested = [])
    {written : WrittenSection}
    (divides : (block.tag.subTag? written.tag.name).isSome = true) {opening : List Char}
    (opened : written.tag.Prints opening) (position : Position) (rest : List Char) :
    outlineFrom tags (some block) (piecesFrom position (opening ++ written.body.chars ++ rest)) =
      outlineFrom tags
        (some (block.goOn (written.toSection (block.tag.handlerOf written.tag.name))))
        (piecesFrom (position.advanceBy (opening ++ written.body.chars)) rest) := by
  obtain ⟨subTag, isSubTag⟩ := Option.isSome_iff_exists.mp divides
  have handler : subTag.handler.getD block.tag.handler = block.tag.handlerOf written.tag.name := by
    rw [BlockTag.handlerOf, isSubTag, Option.bind_some]
  have filled (next : OpenBlock) (current : next.current = ⟨written.tag.name,
        argumentText written.tag.arguments.chars, block.tag.handlerOf written.tag.name, ""⟩) :
      next.addText written.body.chars = { next with
        current := written.toSection (block.tag.handlerOf written.tag.name) } := by
    rw [OpenBlock.addText, current, String.empty_append]
    rfl
  rw [List.append_assoc, outlineFrom_divides (written.tag.isMark opened) isSubTag noneNested,
    handler, outlineFrom_plain _ written.body.noOpener, filled _ rfl, Position.advanceBy_append]
  rfl

/-- The further sections of a block, up to its end. -/
theorem outlineFrom_sections {block : OpenBlock} (noneNested : block.nested = [])
    (noSubTag : block.tag.subTag? block.tag.endName = none) {ending : WrittenTag}
    (ends : ending.name = block.tag.endName) {closing : List Char} (closed : ending.Prints closing)
    {later : List WrittenSection}
    (divide : ∀ written ∈ later, (block.tag.subTag? written.tag.name).isSome = true)
    {source : List Char} (printed : PrintsSections later source) (position : Position)
    (rest : List Char) :
    outlineFrom tags (some block) (piecesFrom position (source ++ (closing ++ rest))) =
      (outlineFrom tags none (piecesFrom (position.advanceBy (source ++ closing)) rest)).prepend
        (.block (block.sections ++ block.current :: later.map fun written =>
          written.toSection (block.tag.handlerOf written.tag.name))) := by
  induction later generalizing block source position with
  | nil =>
    obtain rfl : source = [] := printed
    exact outlineFrom_closes (ends ▸ ending.isMark closed) noSubTag noneNested position rest
  | cons written later ih =>
    obtain ⟨opening, others, opened, othersPrinted, rfl⟩ := printed
    obtain ⟨divides, divideLater⟩ := List.forall_mem_cons.mp divide
    have behind (place : Position) := @ih
      (block.goOn (written.toSection (block.tag.handlerOf written.tag.name)))
      noneNested noSubTag ends divideLater others othersPrinted place
    rw [List.append_assoc, outlineFrom_section noneNested divides opened, behind]
    simp [OpenBlock.goOn]

/-- A written block is a block with the written sections. The first one is started by the tag that
starts the block. -/
theorem outlineFrom_block {block : BlockTag} {first : WrittenSection}
    (defined : tags.find? first.tag.name = some (.block block))
    (noSubTag : block.subTag? block.endName = none) {later : List WrittenSection}
    (divide : ∀ written ∈ later, (block.subTag? written.tag.name).isSome = true)
    {ending : WrittenTag} (ends : ending.name = block.endName) {source : List Char}
    (printed : PrintsBlock (first :: later) ending source) (position : Position)
    (rest : List Char) :
    outlineFrom tags none (piecesFrom position (source ++ rest)) =
      (outlineFrom tags none (piecesFrom (position.advanceBy source) rest)).prepend
        (.block (first.toSection block.handler :: later.map fun written =>
          written.toSection (block.handlerOf written.tag.name))) := by
  obtain ⟨inside, closing, ⟨opening, others, opened, othersPrinted, rfl⟩, closed, rfl⟩ := printed
  have regroup : opening ++ first.body.chars ++ others ++ closing ++ rest =
      opening ++ (first.body.chars ++ (others ++ (closing ++ rest))) := by
    simp
  obtain ⟨opened, rfl, noneNested, noSections, current, openingRead⟩ :=
    outlineFrom_opens (first.tag.isMark opened) defined position
      (first.body.chars ++ (others ++ (closing ++ rest)))
  have behind := @outlineFrom_sections tags (opened.addText first.body.chars) noneNested noSubTag
    ending ends closing closed later divide others othersPrinted
    ((position.advanceBy opening).advanceBy first.body.chars) rest
  rw [regroup, openingRead, outlineFrom_plain _ first.body.noOpener, behind]
  simp [OpenBlock.addText, WrittenSection.toSection, noSections, current]

end Template

namespace Engine

/-- The first output, or the failure that comes before it. -/
def firstOutput : List (Result (Option String)) → Result String
  | [] => .ok ""
  | answer :: rest => do
    match ← answer with
    | some output => return output
    | none => firstOutput rest

private theorem firstOutput_append {earlier : List (Result (Option String))}
    (silent : ∀ answer ∈ earlier, answer = .ok none) (rest : List (Result (Option String))) :
    firstOutput (earlier ++ rest) = firstOutput rest := by
  induction earlier with
  | nil => rfl
  | cons answer earlier ih =>
    obtain rfl := silent answer List.mem_cons_self
    exact ih fun other member => silent other (List.mem_cons_of_mem _ member)

variable (engine : Engine) (context : Context)

/-- What the handler of a section answers. -/
def sectionAnswer (deeper : String → Context → Result String) (found : Section) :
    Result (Option String) := do
  found.handler (← engine.call deeper context found.name found.arguments)
    (engine.sectionBody deeper found.body)

private theorem renderSections_eq_firstOutput (deeper : String → Context → Result String)
    (sections : List Section) :
    engine.renderSections deeper context sections =
      firstOutput (sections.map (engine.sectionAnswer context deeper)) := by
  induction sections with
  | nil => rfl
  | cons found rest ih =>
    rw [List.map_cons, firstOutput, ← ih]
    exact (bind_assoc (engine.call deeper context found.name found.arguments) _ _).symm

private theorem sectionAnswer_toSection (written : WrittenSection) (handler : SectionHandler) :
    engine.sectionAnswer context (engine.renderWithin engine.options.recursionLimit)
      (written.toSection handler) = written.answer engine context handler := by
  simp only [sectionAnswer, call, sectionBody, WrittenSection.toSection, WrittenSection.answer,
    String.toList_ofList, bind_assoc, pure_bind]
  cases engine.options.stripBodies <;> rfl

/-- A template that is one block is rendered as the block is. -/
theorem renderOutline_block (deeper : String → Context → Result String) (sections : List Section) :
    engine.renderOutline deeper context ⟨[.block sections], none⟩ =
      engine.renderSections deeper context sections := by
  simp only [renderOutline, List.mapM_cons, List.mapM_nil, renderNode, bind_assoc, pure_bind]
  cases engine.renderSections deeper context sections with
  | error failure => rfl
  | ok output => exact congrArg Except.ok (by simp [String.join_cons])

/-- A written block is rendered to the first output of its sections. -/
theorem renderSource_eq_firstOutput {block : BlockTag} {first : WrittenSection}
    (defined : engine.tags.find? first.tag.name = some (.block block))
    (noSubTag : block.subTag? block.endName = none) {later : List WrittenSection}
    (divide : ∀ written ∈ later, (block.subTag? written.tag.name).isSome = true)
    {ending : WrittenTag} (ends : ending.name = block.endName) {source : String}
    (printed : PrintsBlock (first :: later) ending source.toList) :
    engine.renderSource source context =
      firstOutput (first.answer engine context block.handler :: later.map fun written =>
        written.answer engine context (block.handlerOf written.tag.name)) := by
  have sections := outlineFrom_block defined noSubTag divide ends printed .start []
  rw [List.append_nil, ← pieces, piecesFrom, outlineFrom] at sections
  have outlined : outline engine.tags source = _ := sections
  rw [renderSource, renderWithin, outlined]
  simp only [Outline.prepend]
  rw [renderOutline_block, renderSections_eq_firstOutput]
  simp only [List.map_cons, List.map_map, Function.comp_def, sectionAnswer_toSection]

variable {engine}

/-- A tag that has been added stays defined, whatever calls are made. -/
theorem find?_of_registerTag {base start : Engine} {name : String} {tag : Tag}
    (registered : base.registerTag name tag = .ok start) (calls : List Registration) :
    (Registration.performAll start calls).tags.find? name = some tag := by
  obtain ⟨-, rfl⟩ := registerTag_eq_ok registered
  have stored : TagRegistry.find? ⟨base.tags.table.insert name tag⟩ name = some tag := by
    rw [TagRegistry.find?, Table.find?_insert, if_pos rfl]
  have found : find? { base with tags := ⟨base.tags.table.insert name tag⟩ } (.tag name) =
      some (.tag tag) := by
    rw [find?, stored]
    rfl
  have stays := Registration.find?_performAll calls found
  obtain ⟨other, isTag, same⟩ := Option.map_eq_some_iff.mp stays
  cases same
  exact isTag

/-- A block of a tag that was registered is rendered to the output of its first section that has
one. The first section is handled by the block, every other one by its sub-tag or else by the block.
A failure of an earlier section to be read or handled is the answer, later sections do not matter,
and a block of which no section has an output is rendered to nothing. -/
theorem renderSource_sections {base start : Engine} {block : BlockTag} {first : WrittenSection}
    (registered : base.registerTag first.tag.name (.block block) = .ok start)
    (calls : List Registration) (loader : Option Loader) (options : Options)
    (noSubTag : block.subTag? block.endName = none) {later : List WrittenSection}
    (divide : ∀ written ∈ later, (block.subTag? written.tag.name).isSome = true)
    {ending : WrittenTag} (ends : ending.name = block.endName) {source : String}
    (printed : PrintsBlock (first :: later) ending source.toList) (context : Context) :
    let engine :=
      { Registration.performAll start calls with loader := loader, options := options }
    let answers := first.answer engine context block.handler :: later.map fun written =>
      written.answer engine context (block.handlerOf written.tag.name)
    (∀ earlier output others, answers = earlier ++ .ok (some output) :: others →
      (∀ answer ∈ earlier, answer = .ok none) →
      engine.renderSource source context = .ok output) ∧
    (∀ earlier failure others, answers = earlier ++ .error failure :: others →
      (∀ answer ∈ earlier, answer = .ok none) →
      engine.renderSource source context = .error failure) ∧
    ((∀ answer ∈ answers, answer = .ok none) → engine.renderSource source context = .ok "") := by
  intro engine answers
  have defined : engine.tags.find? first.tag.name = some (.block block) :=
    find?_of_registerTag registered calls
  have rendered : engine.renderSource source context = firstOutput answers :=
    renderSource_eq_firstOutput engine context defined noSubTag divide ends printed
  refine ⟨fun earlier output others same silent => ?_, fun earlier failure others same silent => ?_,
    fun silent => ?_⟩
  · rw [rendered, same, firstOutput_append silent]
    rfl
  · rw [rendered, same, firstOutput_append silent]
    rfl
  · rw [rendered, ← List.append_nil answers, firstOutput_append silent]
    rfl

/-- A block whose sections have no output, but for a sub-tag that writes its name and its body. -/
def tryBlock : BlockTag :=
  ⟨fun _ _ => .ok none, "endtry",
    [⟨"or", some fun call body => .ok (some (call.name ++ body.text))⟩, ⟨"else", none⟩]⟩

/-- An engine with that block. -/
def tryEngine : Engine :=
  { tags := ⟨StandardTag.all.table.insert "try" (.block tryBlock)⟩ }

/-- The section that starts the block. -/
def tryFirst : WrittenSection :=
  ⟨.ofWord (isTagName_of_all (by decide) (by decide) : IsTagName "try") (.ofText "1" (by decide)),
    ⟨['a'], by decide⟩⟩

/-- A section with an output, and one whose arguments are no expression. -/
def tryLater : List WrittenSection :=
  [⟨.ofWord (isTagName_of_all (by decide) (by decide) : IsTagName "or") (.ofText "x" (by decide)),
      ⟨[' ', 'b', ' '], by decide⟩⟩,
    ⟨.ofWord (isTagName_of_all (by decide) (by decide) : IsTagName "else")
      (.ofText "=" (by decide)), ⟨['c'], by decide⟩⟩]

/-- The tag that ends the block. -/
def tryEnding : WrittenTag :=
  .ofWord (isTagName_of_all (by decide) (by decide) : IsTagName "endtry") .none

theorem renderSource_sections_override :
    registerTag { } tryFirst.tag.name (.block tryBlock) = .ok tryEngine ∧
      ∀ context,
        tryEngine.renderSource "{% try 1 %}a{% or x %} b {% else = %}c{% endtry %}" context =
          .ok "orb" := by
  have registered : registerTag { } tryFirst.tag.name (.block tryBlock) = .ok tryEngine := rfl
  have divide : ∀ written ∈ tryLater, (tryBlock.subTag? written.tag.name).isSome = true := by
    decide
  have printed : PrintsBlock (tryFirst :: tryLater) tryEnding
      "{% try 1 %}a{% or x %} b {% else = %}c{% endtry %}".toList :=
    ⟨_, _, ⟨_, _, printsTag_printTag "try" (.ofText "1" (by decide)),
        ⟨_, _, printsTag_printTag "or" (.ofText "x" (by decide)),
          ⟨_, _, printsTag_printTag "else" (.ofText "=" (by decide)), rfl, rfl⟩, rfl⟩, rfl⟩,
      ⟨[' '], [' '], [], rfl, rfl, rfl, nofun, rfl⟩, by decide⟩
  refine ⟨registered, fun context => ?_⟩
  have firstAnswer : tryFirst.answer tryEngine context tryBlock.handler = .ok none := rfl
  obtain ⟨answer, laterAnswers⟩ : ∃ answer, tryLater.map (fun written =>
      written.answer tryEngine context (tryBlock.handlerOf written.tag.name)) =
        [.ok (some "orb"), answer] := ⟨_, rfl⟩
  obtain ⟨output, -, -⟩ :=
    renderSource_sections registered [] none { } rfl divide rfl printed context
  refine output [.ok none] "orb" [answer] ?_ (by simp)
  exact congr (congrArg List.cons firstAnswer) laterAnswers

end Engine

end Stencil
