import Stencil.Engine
import Stencil.Proofs.LexemePlaces
import Stencil.Proofs.OutlineParts

/-! # Names that a template does not mention

Every name that is looked up during a rendering has been cut out of the template or of one that it
includes. So a name that occurs in none of them, not even as a part of a word, may be bound to
anything: the rendering does not see it, `Engine.renderSource_insert_unmentioned`. Two renderings
run side by side, in contexts that agree on all other names.
-/

namespace Stencil

/-- A text in which a name does not occur, not even as a part of a longer word. -/
def Text.Lacks (name text : String) : Prop :=
  ¬ name.toList <:+: text.toList

namespace Text

instance (name text : String) : Decidable (Lacks name text) :=
  inferInstanceAs (Decidable (¬ _))

private theorem Lacks.of_infix {name text part : String} (lacks : Lacks name text)
    (inside : part.toList <:+: text.toList) : Lacks name part :=
  fun occurs => lacks (occurs.trans inside)

end Text

open Text (Lacks)

/-- The names in an expression have been cut out of its text. -/
theorem Expression.name_infix_of_read {delimiters : Delimiters} {text : String}
    {expression : Expression} (answer : read delimiters text = .ok expression) :
    ∀ path ∈ expression.paths, path.name.toList <:+: text.toList := by
  rw [read_eq] at answer
  obtain ⟨-, lexemesRead⟩ := Lexeme.Scan.read_eq_ok answer
  intro path member
  obtain ⟨token, listed, inToken⟩ := Token.mem_tokenPaths.mp member
  obtain ⟨lexeme, cutOut, tokenRead⟩ := Result.exists_of_mem_of_mapM_eq_ok lexemesRead listed
  have stands := (Lexeme.standsIn_scan text).lexemes lexeme cutOut
  have within {inner : String} (inside : inner ∈ lexeme.inners) :
      inner.toList <:+: text.toList := by
    obtain ⟨before, after, split, -⟩ := stands.exists_append inside
    exact ⟨before, after, split.symm⟩
  have shorter : ∀ inner ∈ lexeme.inners, inner.length < text.length :=
    fun inner inside => (Lexeme.isCut_of_mem_scan cutOut inside).1
  cases lexeme with
  | token complete =>
    cases tokenRead
    exact stands path inToken
  | list items =>
    obtain ⟨expressions, itemsRead, same⟩ := Result.bind_eq_ok.mp tokenRead
    cases same
    obtain ⟨inner, innerListed, inInner⟩ := Token.mem_itemPaths.mp inToken
    obtain ⟨item, itemListed, itemRead⟩ := Result.exists_of_mem_of_mapM_eq_ok itemsRead innerListed
    have smaller := shorter item itemListed
    exact (name_infix_of_read itemRead path inInner).trans (within itemListed)
  | group body =>
    obtain ⟨inner, bodyRead, same⟩ := Result.bind_eq_ok.mp tokenRead
    cases same
    have listed := List.mem_singleton_self body
    have smaller := shorter body listed
    exact (name_infix_of_read bodyRead path inToken).trans (within listed)
termination_by text.length

/-- Contexts in which all names but one have the same values. -/
def Context.AgreesApartFrom (name : String) (context other : Context) : Prop :=
  ∀ wanted, wanted ≠ name → context.find? wanted = other.find? wanted

namespace Context

variable {name : String} {context other : Context}

private theorem insert_agreesApartFrom (context : Context) (name : String) (value : Value) :
    (context.insert name value).AgreesApartFrom name context := by
  intro wanted differs
  rw [find?_insert, if_neg differs]

namespace AgreesApartFrom

variable (agrees : context.AgreesApartFrom name other)
include agrees

/-- A loop variable may even hide the name. -/
theorem insert (loopName : String) (value : Value) :
    (context.insert loopName value).AgreesApartFrom name (other.insert loopName value) := by
  intro wanted differs
  simp [agrees wanted differs]

private theorem evaluate_eq {expression : Expression}
    (unmentioned : ∀ path ∈ expression.paths, path.name ≠ name) :
    expression.evaluate context = expression.evaluate other := by
  refine Expression.evaluate_congr fun path member => ?_
  rw [resolve, resolve, agrees path.name (unmentioned path member)]

end AgreesApartFrom

end Context

section Rendering

variable {name : String} {deeper : String → Context → Result String} {context other : Context}
  {tag : String} {expression : Expression}

/-- Templates without a name render alike in contexts that agree on the other names. -/
def RendersAlike (name : String) (deeper : String → Context → Result String) : Prop :=
  ∀ source context other, Lacks name source → context.AgreesApartFrom name other →
    deeper source context = deeper source other

namespace StandardTag

variable (agrees : context.AgreesApartFrom name other)
  (unmentioned : ∀ path ∈ expression.paths, path.name ≠ name)
include agrees unmentioned

private theorem parse_alike (load : String → Result (Option String)) :
    parse ⟨tag, expression, context, deeper, load⟩ =
      parse ⟨tag, expression, other, deeper, load⟩ := by
  simp only [parse, TagCall.evaluate, agrees.evaluate_eq unmentioned]

variable (alike : RendersAlike name deeper)
include alike

private theorem includeTemplate_alike {load : String → Result (Option String)}
    (library : ∀ template source, load template = .ok (some source) → Lacks name source) :
    includeTemplate ⟨tag, expression, context, deeper, load⟩ =
      includeTemplate ⟨tag, expression, other, deeper, load⟩ := by
  simp only [includeTemplate, TagCall.evaluate, agrees.evaluate_eq unmentioned]
  refine Result.bind_congr_of_ok fun _ _ => Result.bind_congr_of_ok fun value _ => ?_
  cases value with
  | str template =>
    refine Result.bind_congr_of_ok fun found loaded => ?_
    cases found with
    | none => rfl
    | some source => exact alike source context other (library template source loaded) agrees
  | null | bool | int | float | list | map => rfl

variable {text : String} (lacks : Lacks name text)
include lacks

private theorem conditional_alike (load : String → Result (Option String)) :
    conditional ⟨tag, expression, context, deeper, load⟩ ⟨text, deeper⟩ =
      conditional ⟨tag, expression, other, deeper, load⟩ ⟨text, deeper⟩ := by
  have body : deeper text context = deeper text other := alike text context other lacks agrees
  simp only [conditional, TagCall.evaluate, SectionBody.render, agrees.evaluate_eq unmentioned,
    body]

private theorem forLoop_alike (load : String → Result (Option String)) :
    forLoop ⟨tag, expression, context, deeper, load⟩ ⟨text, deeper⟩ =
      forLoop ⟨tag, expression, other, deeper, load⟩ ⟨text, deeper⟩ := by
  simp only [forLoop]
  split
  · next variableToken keyword iterated =>
    have iteratedUnmentioned : ∀ path ∈ Expression.paths [iterated], path.name ≠ name :=
      fun path member => unmentioned path
        (List.mem_append_right _ (List.mem_append_right _ member))
    rw [agrees.evaluate_eq iteratedUnmentioned]
    refine Result.bind_congr_of_ok fun loopName _ => Result.bind_congr_of_ok fun _ _ =>
      Result.bind_congr_of_ok fun value _ => Result.bind_congr_of_ok fun elements _ => ?_
    have parts : (elements.mapM fun element => deeper text (context.insert loopName element)) =
        elements.mapM fun element => deeper text (other.insert loopName element) :=
      Result.mapM_congr_of_mem fun element _ =>
        alike text _ _ lacks (agrees.insert loopName element)
    simp only [SectionBody.render, parts]
  · rfl

end StandardTag

namespace Engine

variable {engine : Engine}

/-- A section of a standard block whose arguments and body lack a name. -/
structure LacksSection (engine : Engine) (name : String) (part : Section) : Prop where
  standard : part.handler = StandardTag.conditional ∨ part.handler = StandardTag.forLoop
  arguments : Lacks name part.arguments
  body (deeper : String → Context → Result String) :
    Lacks name (engine.sectionBody deeper part.body).text

private theorem lacksSection_of_isSectionOf {source : String} {part : Section}
    (lacks : Lacks name source) (standard : engine.tags = StandardTag.all)
    (isSection : Template.IsSectionOf engine.tags (Template.pieces source.toList) part) :
    engine.LacksSection name part := by
  refine ⟨isSection.eq_of_standard standard, lacks.of_infix isSection.arguments_infix,
    fun deeper => lacks.of_infix ?_⟩
  rw [sectionBody]
  split
  · rw [String.toList_ofList]
    exact (Text.trim_infix _).trans isSection.body_infix
  · exact isSection.body_infix

/-- What has been read from arguments without a name does not mention it. -/
theorem unmentioned_of_read {arguments : String} (lacks : Lacks name arguments)
    (answer : engine.read arguments = .ok expression) :
    ∀ path ∈ expression.paths, path.name ≠ name := by
  rintro path member rfl
  exact lacks (Expression.name_infix_of_read answer path member)

variable (alike : RendersAlike name deeper) (agrees : context.AgreesApartFrom name other)
include alike agrees

private theorem renderSections_alike {sections : List Section}
    (lack : ∀ part ∈ sections, engine.LacksSection name part) :
    engine.renderSections deeper context sections =
      engine.renderSections deeper other sections := by
  induction sections with
  | nil => rfl
  | cons part rest ih =>
    rw [List.forall_mem_cons] at lack
    simp only [renderSections, call, bind_assoc, pure_bind]
    refine Result.bind_congr_of_ok fun tokens answer => ?_
    have unmentioned := unmentioned_of_read lack.1.arguments answer
    have handled : part.handler ⟨part.name, tokens, context, deeper, engine.load⟩
          (engine.sectionBody deeper part.body) =
        part.handler ⟨part.name, tokens, other, deeper, engine.load⟩
          (engine.sectionBody deeper part.body) := by
      rcases lack.1.standard with isConditional | isLoop
      · rw [isConditional]
        exact StandardTag.conditional_alike agrees unmentioned alike (lack.1.body deeper)
          engine.load
      · rw [isLoop]
        exact StandardTag.forLoop_alike agrees unmentioned alike (lack.1.body deeper) engine.load
    rw [handled, ih lack.2]

variable (standard : engine.tags = StandardTag.all)
  (library : ∀ template source, engine.load template = .ok (some source) → Lacks name source)
  {source : String} (lacks : Lacks name source)
include standard library lacks

private theorem renderNode_alike {node : Template.Node}
    (isOf : node.IsOf engine.tags (Template.pieces source.toList)) :
    engine.renderNode deeper context node = engine.renderNode deeper other node := by
  cases node with
  | text content => rfl
  | inline tag arguments handler =>
    obtain ⟨found, mark, member, -, rfl⟩ := isOf
    simp only [renderNode, call, bind_assoc, pure_bind]
    refine Result.bind_congr_of_ok fun tokens answer => ?_
    have listed := Template.mem_marks member
    have inArguments : Lacks name mark.unplaced.arguments :=
      lacks.of_infix (Template.arguments_infix_of_mem_marks listed)
    have unmentioned := unmentioned_of_read inArguments answer
    rw [standard] at found
    rcases StandardTag.eq_of_find?_all_inline found with ⟨-, rfl⟩ | ⟨-, rfl⟩
    · exact StandardTag.parse_alike agrees unmentioned engine.load
    · exact StandardTag.includeTemplate_alike agrees unmentioned alike library
  | block sections =>
    exact renderSections_alike alike agrees fun part member =>
      lacksSection_of_isSectionOf lacks standard (isOf part member)

private theorem renderOutline_alike :
    engine.renderOutline deeper context (Template.outline engine.tags source) =
      engine.renderOutline deeper other (Template.outline engine.tags source) := by
  have nodes := Result.mapM_congr_of_mem fun node member =>
    renderNode_alike alike agrees standard library lacks (Template.isOf_of_mem_outline node member)
  rw [renderOutline, renderOutline, nodes]

end Engine

end Rendering

namespace Engine

/-- At every depth a template without a name renders alike in contexts that agree on the other
names. -/
theorem renderWithin_alike {engine : Engine} {name : String}
    (standard : engine.tags = StandardTag.all)
    (library : ∀ template source, engine.load template = .ok (some source) → Lacks name source)
    (levels : Nat) : RendersAlike name (engine.renderWithin levels) := by
  induction levels with
  | zero => exact fun _ _ _ _ _ => rfl
  | succ levels ih =>
    intro source context other lacks agrees
    rw [renderWithin, renderWithin]
    exact renderOutline_alike ih agrees standard library lacks

/-- The value of a name that occurs neither in a template nor in any stored one does not matter. -/
theorem renderSource_insert_unmentioned {engine : Engine} {name source : String}
    (standard : engine.tags = StandardTag.all) (noLoader : engine.loader = none)
    (unmentioned : ¬ name.toList <:+: source.toList)
    (library : ∀ template text, engine.templates.find? template = some text →
      ¬ name.toList <:+: text.toList)
    (context : Context) (value : Value) :
    engine.renderSource source (context.insert name value) =
      engine.renderSource source context := by
  have loads : ∀ template text, engine.load template = .ok (some text) → Lacks name text := by
    intro template text loaded
    rw [load_of_noLoader noLoader] at loaded
    exact library template text (Except.ok.inj loaded)
  exact renderWithin_alike standard loads _ source _ _ unmentioned
    (context.insert_agreesApartFrom name value)

end Engine

/-- An engine with a template for the entries of a list. -/
def entryEngine : Engine :=
  { templates := ⟨Table.empty.insert "entry" "<{{ i }}>"⟩ }

/-- A template that includes another one in a conditional inside a loop. -/
def entrySource : String :=
  "{% for i in s %}{% if True %}{% include kind %}{% endif %}{% endfor %}"

def entryContext : Context :=
  Context.insert { } "s" (.list [.int 1, .int 2]) |>.insert "kind" (.str "entry")

theorem Engine.renderSource_insert_unmentioned_entries :
    entryEngine.tags = StandardTag.all ∧ entryEngine.loader = none ∧
      ¬ "user".toList <:+: entrySource.toList ∧
      (∀ template text, entryEngine.templates.find? template = some text →
        ¬ "user".toList <:+: text.toList) ∧
      entryEngine.renderSource entrySource (entryContext.insert "user" (.str "i")) =
        .ok "<1><2>" := by
  have unmentioned : ¬ "user".toList <:+: entrySource.toList := by decide +kernel
  have library : ∀ template text, entryEngine.templates.find? template = some text →
      ¬ "user".toList <:+: text.toList := by
    intro template text found
    rw [entryEngine, TemplateStore.find?, Table.find?_insert] at found
    split at found
    · cases found
      decide +kernel
    · cases found
  have rendered : entryEngine.renderSource entrySource entryContext = .ok "<1><2>" := by
    decide +kernel
  refine ⟨rfl, rfl, unmentioned, library, ?_⟩
  rw [renderSource_insert_unmentioned rfl rfl unmentioned library, rendered]

end Stencil
