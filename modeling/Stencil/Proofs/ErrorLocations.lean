import Stencil.Engine
import Stencil.Proofs.ErrorPositions
import Stencil.Proofs.MarkPlaces
import Stencil.Proofs.OperatorFailures

/-! # The places in failures of rendering

A failure that names a tag says in which line and in which column the tag stands. Of all that is
done during a rendering only cutting a text into an outline fails in this way, and then the place is
that of a tag in the text, `Template.exists_tag_of_failure`. The body of a section is such a text
of its own, so a failure inside it counts lines and columns from the beginning of the body:
`Engine.location_in_innermost_body`.
-/

namespace Stencil

/-- The tag that a failure of a template names, and the line and the column at which the failure
says the tag stands. -/
def Error.location? : Error → Option (String × Nat × Nat)
  | .unknownTag tag line column => some (tag, line, column)
  | .unclosedBlock tag line column => some (tag, line, column)
  | _ => none

open Result

/-- An operation whose failures say nothing of a tag. -/
abbrev Result.Unlocated {α : Type} (x : Result α) : Prop :=
  FailsWith (fun error => error.location? = none) x

namespace BinaryOperator

variable (operator : BinaryOperator) (left right : Value)

private theorem unlocated_apply : Unlocated (operator.apply left right) := by
  refine (operator.failsWith_apply left right).mono fun error failure => ?_
  cases error with
  | unknownTag | unclosedBlock => exact failure.elim
  | _ => rfl

end BinaryOperator

namespace Evaluation

variable (expression : Expression)

private theorem unlocated_reduce (waiting : Waiting) (operands : List Value) :
    Unlocated (waiting.reduce expression operands) := by
  rw [Waiting.reduce.eq_def]
  split
  · trivial
  · exact (BinaryOperator.unlocated_apply ..).bind fun _ => trivial
  · exact rfl

private theorem unlocated_reduceDownTo (precedence : Nat) (waiting : List Waiting)
    (operands : List Value) : Unlocated (reduceDownTo expression precedence waiting operands) := by
  induction waiting generalizing operands with
  | nil => trivial
  | cons first rest ih =>
    rw [reduceDownTo]
    split
    · exact (unlocated_reduce expression first operands).bind ih
    · trivial

/-- An atom whose value, if it has one, is known or fails without naming a tag. -/
def Atom.IsUnlocated : Atom → Prop
  | .operand value => Unlocated value
  | .negation | .binary _ => True

private theorem unlocated_step (state : State) {atom : Atom} (unlocated : atom.IsUnlocated) :
    Unlocated (step expression state atom) := by
  cases atom with
  | operand value =>
    refine FailsWith.bind unlocated fun known => ?_
    split
    · trivial
    · exact rfl
  | negation =>
    rw [step]
    split
    · trivial
    · exact rfl
  | binary operator =>
    rw [step]
    split
    · exact rfl
    · exact (unlocated_reduceDownTo ..).bind fun _ => trivial

private theorem unlocated_run {atoms : List Atom} (unlocated : ∀ atom ∈ atoms, atom.IsUnlocated) :
    Unlocated (run expression atoms) := by
  have folded : Unlocated (atoms.foldlM (step expression) ⟨[], [], true⟩) :=
    FailsWith.foldlM fun state atom member =>
      unlocated_step expression state (unlocated atom member)
  refine folded.bind fun state => ?_
  rw [finish.eq_def]
  split
  · exact rfl
  · exact (unlocated_reduceDownTo ..).bind fun _ => trivial

mutual

private theorem isUnlocated_atom (context : Context) :
    ∀ token : Token, (atom context token).IsUnlocated
  | .identifier _ | .operator (.constant _) | .str _ | .int _ | .float _ => trivial
  | .operator .negation | .operator (.binary _) => trivial
  | .list items => (unlocated_itemValues context items).map Value.list
  | .group tokens => unlocated_run tokens (isUnlocated_atoms context tokens)

private theorem isUnlocated_atoms (context : Context) :
    ∀ tokens : List Token, ∀ atom ∈ atoms context tokens, atom.IsUnlocated
  | [] => List.forall_mem_nil _
  | token :: rest =>
    List.forall_mem_cons.mpr ⟨isUnlocated_atom context token, isUnlocated_atoms context rest⟩

private theorem unlocated_itemValues (context : Context) :
    ∀ items : List (List Token), Unlocated (itemValues context items)
  | [] => trivial
  | item :: rest =>
    (unlocated_run item (isUnlocated_atoms context item)).bind fun _ =>
      (unlocated_itemValues context rest).bind fun _ => trivial

end

end Evaluation

private theorem Expression.unlocated_evaluate (context : Context) (expression : Expression) :
    Unlocated (expression.evaluate context) :=
  Evaluation.unlocated_run expression (Evaluation.isUnlocated_atoms context expression)

/-- A failure to read an expression is one of its form or an unknown operator. -/
theorem Expression.unlocated_read (delimiters : Delimiters) (text : String) :
    Unlocated (read delimiters text) := by
  refine satisfies_iff.mpr ⟨fun _ _ => trivial, fun error failed => ?_⟩
  obtain ⟨front, part, fails⟩ := exists_failsIn text failed
  rcases ((Lexeme.standsIn_scan part).failure error fails.failure).ofReading with
    ⟨fault, rfl⟩ | ⟨operator, position, rfl⟩ <;> rfl

namespace Template

/-- A failure that names a tag in front of which the given characters stand: it says in which line
and in which column. -/
def IsFailureAt (tag : String) (front : List Char) (error : Error) : Prop :=
  error.location? = some (tag, (Position.start.advanceBy front).line,
    (Position.start.advanceBy front).column)

/-- An open block that has been started by a tag in the pieces that have been passed. -/
def OpenBlock.IsOpenedIn (passed : List Piece) (block : OpenBlock) : Prop :=
  ∃ before mark after, passed = before ++ .mark mark :: after ∧ mark.kind = .tag ∧
    block.name = mark.name ∧ block.position = mark.position

variable {tags : TagRegistry} {passed : List Piece}

private theorem OpenBlock.IsOpenedIn.append {block : OpenBlock} (opened : block.IsOpenedIn passed)
    (more : List Piece) : block.IsOpenedIn (passed ++ more) := by
  obtain ⟨before, mark, after, rfl, same⟩ := opened
  exact ⟨before, mark, after ++ more, by simp, same⟩

/-- An open block keeps its name and its place. -/
private theorem OpenBlock.eq_of_step {block next : OpenBlock} {mark : Mark}
    (stepped : block.step tags mark = .more next) :
    next.name = block.name ∧ next.position = block.position := by
  have kept : (block.passTag tags mark.name).name = block.name ∧
      (block.passTag tags mark.name).position = block.position := by
    rw [OpenBlock.passTag]
    repeat' split
    all_goals exact ⟨rfl, rfl⟩
  rw [OpenBlock.step] at stepped
  split at stepped
  · cases stepped
    exact ⟨rfl, rfl⟩
  · repeat' split at stepped
    all_goals cases stepped
    all_goals first | exact ⟨rfl, rfl⟩ | exact kept

/-- The mark of a tag that is not registered, or of a block, is no substitution. -/
private theorem kind_eq_tag {mark : Mark} (inserts : tags.isInline Mark.substitutionTag = true)
    (noInline : ∀ handler, tags.find? mark.name ≠ some (.inline handler)) : mark.kind = .tag := by
  cases isKind : mark.kind with
  | tag => rfl
  | substitution =>
    have named : mark.name = Mark.substitutionTag := by rw [Mark.name, isKind]
    rw [TagRegistry.isInline] at inserts
    split at inserts
    · next handler found => exact absurd (named ▸ found) (noInline handler)
    · cases inserts

/-- The failure of an outline is at one of the marks. -/
private theorem exists_mark_of_failure {rest : List Piece} {block? : Option OpenBlock}
    {error : Error} (inserts : tags.isInline Mark.substitutionTag = true)
    (opened : ∀ block ∈ block?, block.IsOpenedIn passed)
    (failed : (outlineFrom tags block? rest).failure = some error) :
    ∃ before mark after, passed ++ rest = before ++ .mark mark :: after ∧ mark.kind = .tag ∧
      error.location? = some (mark.name, mark.position.line, mark.position.column) := by
  induction rest generalizing passed block? with
  | nil =>
    cases block? with
    | none => cases failed
    | some block =>
      cases failed
      obtain ⟨before, mark, after, rfl, isTag, named, placed⟩ := opened block rfl
      refine ⟨before, mark, after, List.append_nil _, isTag, ?_⟩
      rw [← named, ← placed]
      rfl
  | cons piece rest ih =>
    have regroup : passed ++ piece :: rest = passed ++ [piece] ++ rest := by simp
    have noBlock : ∀ block ∈ (none : Option OpenBlock), block.IsOpenedIn (passed ++ [piece]) :=
      nofun
    have later (failed : (outlineFrom tags none rest).failure = some error) := ih noBlock failed
    have inBlock {next : OpenBlock} (isOpened : next.IsOpenedIn (passed ++ [piece]))
        (failed : (outlineFrom tags (some next) rest).failure = some error) := by
      have onlyNext : ∀ block ∈ some next, block.IsOpenedIn (passed ++ [piece]) := by
        rintro block ⟨⟩
        exact isOpened
      exact ih onlyNext failed
    rw [regroup]
    cases block? with
    | none =>
      cases piece with
      | text chars => exact later failed
      | mark mark =>
        rw [outlineFrom] at failed
        split at failed
        · exact later failed
        · next tag found =>
          have isTag : mark.kind = .tag := kind_eq_tag inserts fun handler isInline => by
            rw [found] at isInline
            cases isInline
          exact inBlock ⟨passed, mark, [], rfl, isTag, rfl, rfl⟩ failed
        · next found =>
          cases failed
          have isTag : mark.kind = .tag := kind_eq_tag inserts fun handler isInline => by
            rw [found] at isInline
            cases isInline
          exact ⟨passed, mark, rest, by simp, isTag, rfl⟩
    | some block =>
      have blockOpened := (opened block rfl).append [piece]
      cases piece with
      | text chars =>
        rw [outlineFrom] at failed
        have longerOpened : (block.addText chars).IsOpenedIn (passed ++ [.text chars]) :=
          blockOpened
        exact inBlock longerOpened failed
      | mark mark =>
        rw [outlineFrom] at failed
        split at failed
        · next next stepped =>
          obtain ⟨sameName, samePosition⟩ := OpenBlock.eq_of_step stepped
          rw [OpenBlock.IsOpenedIn, ← sameName, ← samePosition] at blockOpened
          exact inBlock blockOpened failed
        · exact later failed

/-- An outline fails at a tag of its own template. -/
theorem exists_tag_of_failure {source : String} {error : Error}
    (inserts : tags.isInline Mark.substitutionTag = true)
    (failed : (outline tags source).failure = some error) :
    ∃ front tag, TagStandsAt source.toList front tag ∧ IsFailureAt tag front error := by
  have noBlock : ∀ block ∈ (none : Option OpenBlock), block.IsOpenedIn [] := nofun
  obtain ⟨before, mark, after, cut, isTag, located⟩ :=
    exists_mark_of_failure inserts noBlock failed
  rw [position_eq_advanceBy cut] at located
  exact ⟨before.flatMap Piece.source, mark.name, ⟨before, mark, after, cut, rfl, isTag, rfl⟩,
    located⟩

end Template

private theorem unlocated_checkArgumentCount (tag : String) (found expected : Nat) :
    Unlocated (checkArgumentCount tag found expected) := by
  rw [checkArgumentCount]
  split
  · exact rfl
  · split
    · exact rfl
    · trivial

namespace StandardTag

variable {call : TagCall}

private theorem unlocated_parse : Unlocated (parse call) := by
  rw [parse]
  split
  · exact rfl
  · exact (Expression.unlocated_evaluate ..).bind fun _ => trivial

/-- Without templates `include` renders nothing. -/
private theorem unlocated_includeTemplate (nothing : ∀ name, call.load name = .ok none) :
    Unlocated (includeTemplate call) := by
  refine (unlocated_checkArgumentCount ..).bind fun _ =>
    (Expression.unlocated_evaluate ..).bind fun value => ?_
  cases value with
  | str name =>
    simp only [nothing]
    trivial
  | null | bool | int | float | list | map => exact rfl

variable {failure : Error → Prop} (silent : ∀ error, error.location? = none → failure error)
  {body : SectionBody} (renders : ∀ context, FailsWith failure (body.render context))
include silent renders

private theorem failsWith_conditional : FailsWith failure (conditional call body) := by
  rw [conditional]
  split
  · refine ((Expression.unlocated_evaluate ..).mono silent).bind fun value => ?_
    split
    · exact (renders _).bind fun _ => trivial
    · exact (renders _).bind fun _ => trivial
    · trivial
  · split
    · exact ((unlocated_checkArgumentCount ..).mono silent).bind fun _ =>
        (renders _).bind fun _ => trivial
    · exact silent _ rfl

private theorem failsWith_forLoop : FailsWith failure (forLoop call body) := by
  have variableName (token : Token) : FailsWith failure (loopVariable token) := by
    rw [loopVariable.eq_def]
    split
    · trivial
    · exact silent _ rfl
  have keyword (token : Token) : FailsWith failure (loopKeyword token) := by
    rw [loopKeyword.eq_def]
    split
    · trivial
    · exact silent _ rfl
  have elements (value : Value) : FailsWith failure (loopElements value) := by
    rw [loopElements]
    split
    · trivial
    · exact silent _ rfl
  rw [forLoop]
  split
  · exact (variableName _).bind fun _ => (keyword _).bind fun _ =>
      ((Expression.unlocated_evaluate ..).mono silent).bind fun value =>
        (elements value).bind fun _ =>
          (FailsWith.mapM fun _ _ => renders _).bind fun _ => trivial
  · exact ((unlocated_checkArgumentCount ..).mono silent).bind fun _ => trivial

end StandardTag

namespace Engine

open Template

/-- The text of a section that is rendered. -/
def bodyText (engine : Engine) (body : String) : String :=
  if engine.options.stripBodies then String.ofList (Text.trim body.toList) else body

/-- Only blanks are cut off from a body. -/
theorem exists_append_bodyText (engine : Engine) (body : String) :
    ∃ lead trail, Text.isAllBlank lead = true ∧ Text.isAllBlank trail = true ∧
      body.toList = lead ++ (engine.bodyText body).toList ++ trail := by
  rw [bodyText]
  split
  · rw [String.toList_ofList]
    exact Text.exists_append_trim body.toList
  · exact ⟨[], [], rfl, rfl, by simp⟩

/-- A text that is rendered for a template, and what stands in front of it in the template: the
template itself, or the body of a section in it, at any depth. -/
inductive BodyIn (engine : Engine) : String → List Char → String → Prop
  | whole (source : String) : BodyIn engine source [] source
  | inside {source body : String} {before inner after : List Piece} {mark next : Mark}
    {part : Section} {lead trail front : List Char}
    (cut : pieces source.toList = before ++ .mark mark :: (inner ++ .mark next :: after))
    (isFrom : IsSectionFrom engine.tags mark inner part)
    (leadBlank : Text.isAllBlank lead = true) (trailBlank : Text.isAllBlank trail = true)
    (split : part.body.toList = lead ++ (engine.bodyText part.body).toList ++ trail)
    (deeper : BodyIn engine (engine.bodyText part.body) front body) :
    BodyIn engine source (before.flatMap Piece.source ++ mark.source ++ (lead ++ front)) body

/-- A tag of a body is a tag of the template. -/
theorem BodyIn.tagStandsAt {engine : Engine} {source body tag : String} {front inside : List Char}
    (isBody : engine.BodyIn source front body) (stands : TagStandsAt body.toList inside tag) :
    TagStandsAt source.toList (front ++ inside) tag := by
  induction isBody with
  | whole source => exact stands
  | inside cut isFrom leadBlank trailBlank split deeper ih =>
    have inBody := TagStandsAt.ofTrim leadBlank trailBlank (ih stands)
    rw [← split, isFrom.body] at inBody
    have inSource := TagStandsAt.ofSection cut inBody
    rwa [List.append_assoc _ (_ ++ _) inside, List.append_assoc _ _ inside]

/-- A failure that names no tag, or a tag of a body in the template at its place in the body. -/
def FailsAt (engine : Engine) (source : String) (error : Error) : Prop :=
  error.location? = none ∨ ∃ front body inside tag, engine.BodyIn source front body ∧
    TagStandsAt body.toList inside tag ∧ IsFailureAt tag inside error

private theorem FailsAt.ofSection {engine : Engine} {source : String} {part : Section}
    {error : Error} (isSection : IsSectionOf engine.tags (pieces source.toList) part)
    (fails : engine.FailsAt (engine.bodyText part.body) error) : engine.FailsAt source error := by
  refine fails.imp_right ?_
  rintro ⟨front, body, inside, tag, isBody, stands, located⟩
  obtain ⟨before, mark, inner, next, after, cut, isFrom⟩ := isSection
  obtain ⟨lead, trail, leadBlank, trailBlank, split⟩ := engine.exists_append_bodyText part.body
  exact ⟨_, body, inside, tag, .inside cut isFrom leadBlank trailBlank split isBody, stands,
    located⟩

section Rendering

variable {engine : Engine} {deeper : String → Context → Result String} {context : Context}
  {failure : Error → Prop}

private theorem failsWith_renderSections (silent : ∀ error, error.location? = none → failure error)
    {sections : List Section}
    (standard : ∀ part ∈ sections,
      part.handler = StandardTag.conditional ∨ part.handler = StandardTag.forLoop)
    (renders : ∀ part ∈ sections, ∀ context,
      FailsWith failure (deeper (engine.bodyText part.body) context)) :
    FailsWith failure (engine.renderSections deeper context sections) := by
  induction sections with
  | nil => trivial
  | cons part rest ih =>
    rw [List.forall_mem_cons] at standard renders
    simp only [renderSections, call, bind_assoc, pure_bind]
    refine ((Expression.unlocated_read ..).mono silent).bind fun tokens => ?_
    have handled : FailsWith failure
        (part.handler ⟨part.name, tokens, context, deeper, engine.load⟩
          (engine.sectionBody deeper part.body)) := by
      rcases standard.1 with isConditional | isLoop
      · rw [isConditional]
        exact StandardTag.failsWith_conditional silent renders.1
      · rw [isLoop]
        exact StandardTag.failsWith_forLoop silent renders.1
    refine handled.bind fun found => ?_
    cases found with
    | some output => trivial
    | none => exact ih standard.2 renders.2

variable (standard : engine.tags = StandardTag.all)
  (nothing : ∀ name, engine.load name = .ok none)
  (renders : ∀ source context, FailsWith (engine.FailsAt source) (deeper source context))
  {source : String}
include standard nothing renders

private theorem failsWith_renderNode {node : Node}
    (isOf : node.IsOf engine.tags (pieces source.toList)) :
    FailsWith (engine.FailsAt source) (engine.renderNode deeper context node) := by
  have silent (error : Error) (none : error.location? = none) : engine.FailsAt source error :=
    .inl none
  cases node with
  | text content => trivial
  | inline tag arguments handler =>
    obtain ⟨found, -⟩ := isOf
    simp only [renderNode, call, bind_assoc, pure_bind]
    refine ((Expression.unlocated_read ..).mono silent).bind fun tokens => ?_
    rw [standard] at found
    rcases StandardTag.eq_of_find?_all_inline found with ⟨-, rfl⟩ | ⟨-, rfl⟩
    · exact StandardTag.unlocated_parse.mono silent
    · exact (StandardTag.unlocated_includeTemplate nothing).mono silent
  | block sections =>
    exact failsWith_renderSections silent
      (fun part member => (isOf part member).eq_of_standard standard) fun part member context =>
        (renders _ context).mono fun error fails => fails.ofSection (isOf part member)

private theorem failsWith_renderOutline : FailsWith (engine.FailsAt source)
    (engine.renderOutline deeper context (outline engine.tags source)) := by
  have nodes : FailsWith (engine.FailsAt source)
      ((outline engine.tags source).nodes.mapM (engine.renderNode deeper context)) :=
    FailsWith.mapM fun node member =>
      failsWith_renderNode standard nothing renders (isOf_of_mem_outline node member)
  refine nodes.bind fun parts => ?_
  split
  · next error failed =>
    have inserts : engine.tags.isInline Mark.substitutionTag = true := by
      rw [standard]
      rfl
    obtain ⟨front, tag, stands, located⟩ := exists_tag_of_failure inserts failed
    exact .inr ⟨[], source, front, tag, .whole source, stands, located⟩
  · trivial

end Rendering

/-- At every depth a failure that names a tag names one of a body of the template. -/
theorem failsWith_renderWithin {engine : Engine} (standard : engine.tags = StandardTag.all)
    (nothing : ∀ name, engine.load name = .ok none) (levels : Nat) (source : String)
    (context : Context) :
    FailsWith (engine.FailsAt source) (engine.renderWithin levels source context) := by
  induction levels generalizing source context with
  | zero => exact .inl rfl
  | succ levels ih =>
    rw [renderWithin]
    exact failsWith_renderOutline standard nothing ih

/-- A failure that names a tag gives the line and the column of the tag in the innermost body that
was being rendered. They are those of the tag in the template if the template itself was being
rendered, or if the body starts in the first line and the tag stands in a later one, and not
otherwise. -/
theorem location_in_innermost_body {engine : Engine} (standard : engine.tags = StandardTag.all)
    (noLoader : engine.loader = none) (noTemplates : ∀ name, engine.templates.find? name = none)
    {source : String} {context : Context} {error : Error}
    (failed : engine.renderSource source context = .error error) {tag : String}
    {line column : Nat} (located : error.location? = some (tag, line, column)) :
    ∃ front body inside, engine.BodyIn source front body ∧ TagStandsAt body.toList inside tag ∧
      TagStandsAt source.toList (front ++ inside) tag ∧
      line = (Position.start.advanceBy inside).line ∧
      column = (Position.start.advanceBy inside).column ∧
      (line = (Position.start.advanceBy (front ++ inside)).line ∧
          column = (Position.start.advanceBy (front ++ inside)).column ↔
        front = [] ∨ '\n' ∉ front ∧ '\n' ∈ inside) := by
  have nothing (name : String) : engine.load name = .ok none := by
    rw [load_of_noLoader noLoader, noTemplates]
  rcases (failsWith_renderWithin standard nothing _ source context).of_error failed with
    unlocated | ⟨front, body, inside, named, isBody, stands, isFailure⟩
  · rw [unlocated] at located
    cases located
  · rw [isFailure] at located
    cases located
    exact ⟨front, body, inside, isBody, stands, isBody.tagStandsAt stands, rfl, rfl,
      Position.samePlace_append_iff .start front inside⟩

/-- In the body of a loop inside a conditional: the tag stands in the third line of the template and
is reported in the second one. -/
theorem location_in_innermost_body_loop :
    let source := "{% if True %}\n{% for c in s %}<br>\n{% oops %}{% endfor %}{% endif %}"
    let context := Context.insert { } "s" (.str "ab")
    ({ } : Engine).renderSource source context = .error (.unknownTag "oops" 2 1) ∧
      ∃ front body inside, ({ } : Engine).BodyIn source front body ∧
        TagStandsAt body.toList inside "oops" ∧ TagStandsAt source.toList (front ++ inside) "oops" ∧
        2 = (Position.start.advanceBy inside).line ∧
        1 = (Position.start.advanceBy inside).column ∧
        (2 = (Position.start.advanceBy (front ++ inside)).line ∧
            1 = (Position.start.advanceBy (front ++ inside)).column ↔
          front = [] ∨ '\n' ∉ front ∧ '\n' ∈ inside) := by
  intro source context
  have failed : ({ } : Engine).renderSource source context = .error (.unknownTag "oops" 2 1) := by
    decide +kernel
  exact ⟨failed, location_in_innermost_body rfl rfl (fun _ => rfl) failed rfl⟩

/-- The place of a tag in the body of a section is not its place in the template. -/
theorem location_of_body_not_in_source :
    let source := "{% if True %}\n\n{% oops %}{% endif %}"
    ({ } : Engine).renderSource source { } = .error (.unknownTag "oops" 1 1) ∧
      ∀ front, TagStandsAt source.toList front "oops" →
        (Position.start.advanceBy front).line = 3 := by
  intro source
  refine ⟨by decide +kernel, ?_⟩
  have third : (pieces source.toList).all (fun piece => match piece with
      | .mark mark => mark.name != "oops" || mark.position.line == 3
      | .text _ => true) = true := by
    decide +kernel
  rintro _ ⟨before, mark, after, cut, rfl, -, named⟩
  have here : .mark mark ∈ pieces source.toList := by simp [cut]
  have isThird := List.all_eq_true.mp third _ here
  rw [← position_eq_advanceBy cut]
  simpa [named] using isThird

end Engine

end Stencil
