import Stencil.Proofs.Concatenation
import Stencil.Proofs.RecursionLimit
import Stencil.Proofs.RoundTrip

/-! # Blocks inside a conditional

How a block is matched does not depend on how deep it stands. While a conditional is open, it keeps
the names that end the blocks nested in it on a stack; a template inside it pushes and pops these
as it opens and closes its own blocks, `outlineFrom_inside`. So a template renders inside a
conditional as it does alone, one level deeper: `Engine.renderSource_conditional`.

A conditional looks at names only. Where a name has two meanings, as a sub-tag of the conditional
and as a tag of the template, or as a sub-tag of a block and as a block, the two readings part:
`Engine.not_renderSource_conditional`. `Node.keepsApart` excludes these names.
-/

namespace Stencil

open StandardTag

namespace Template

/-- The names that mean something to a conditional outside of nested blocks. -/
def conditionalNames : List String :=
  ["elif", "else", "endif"]

/-- A node whose names mean the same inside a conditional: an inline tag or a block does not have a
name that the conditional takes for its own, and no sub-tag has the name of a block. -/
def Node.keepsApart (tags : TagRegistry) : Node → Bool
  | .text _ => true
  | .inline name _ _ => !conditionalNames.contains name
  | .block sections =>
    (sections.head?.all fun part => !conditionalNames.contains part.name) &&
      sections.tail.all fun part => !tags.isBlock part.name

/-- An outline that is complete and all of whose names mean the same inside a conditional. -/
structure Outline.KeepsApart (tags : TagRegistry) (outline : Outline) : Prop where
  complete : outline.failure = none
  nodes : ∀ node ∈ outline.nodes, node.keepsApart tags = true

private theorem Outline.KeepsApart.of_prepend {tags : TagRegistry} {node : Node} {outline : Outline}
    (keepsApart : (outline.prepend node).KeepsApart tags) :
    node.keepsApart tags = true ∧ outline.KeepsApart tags :=
  ⟨keepsApart.nodes node List.mem_cons_self, keepsApart.complete,
    fun other member => keepsApart.nodes other (List.mem_cons_of_mem node member)⟩

variable {tags : TagRegistry}

namespace OpenBlock

/-- The block in which the given blocks are nested. -/
def withNested (block : OpenBlock) (nested : List String) : OpenBlock :=
  { block with nested := nested }

/-- The names of the ends for which a block around this one waits: those of the blocks nested here
and that of the block itself. -/
def ends (block : OpenBlock) : List String :=
  block.nested ++ [block.tag.endName]

/-- The names that end nested blocks after a tag: it ends the innermost of them or starts another
one. -/
def passName (tags : TagRegistry) (nested : List String) (name : String) : List String :=
  if nested.head? = some name then nested.tail
  else
    match tags.block? name with
    | some tag => tag.endName :: nested
    | none => nested

private theorem passTag_eq (block : OpenBlock) (name : String) :
    block.passTag tags name = block.withNested (passName tags block.nested name) := by
  rw [passTag, passName]
  split
  · rfl
  · cases tags.block? name <;> rfl

/-- The end of an outer block stays at the bottom of the stack until its own tag comes. -/
theorem passName_append {nested : List String} {name endName : String}
    (apart : nested ≠ [] ∨ name ≠ endName) :
    passName tags (nested ++ [endName]) name = passName tags nested name ++ [endName] := by
  cases nested with
  | nil =>
    have differs : name ≠ endName := apart.resolve_left (absurd rfl)
    have notInnermost : ¬ ([] ++ [endName]).head? = some name := by simpa using Ne.symm differs
    rw [passName, passName, if_neg notInnermost, if_neg nofun]
    cases tags.block? name <;> rfl
  | cons first rest =>
    have sameHead : (first :: rest ++ [endName]).head? = (first :: rest).head? := rfl
    rw [passName, passName, sameHead]
    by_cases innermost : (first :: rest).head? = some name
    · rw [if_pos innermost, if_pos innermost]
      rfl
    · rw [if_neg innermost, if_neg innermost]
      cases tags.block? name <;> rfl

end OpenBlock

/-- What is known of a block that is closed in the end: the node that it becomes starts with the
sections so far, and its end tag is none of its sub-tags. -/
theorem exists_block_of_complete {block : OpenBlock} {rest : List Piece}
    (complete : (outlineFrom tags (some block) rest).failure = none) :
    block.tag.subTag? block.tag.endName = none ∧ ∃ current later others,
      (outlineFrom tags (some block) rest).nodes =
        .block (block.sections ++ current :: later) :: others ∧
      current.name = block.current.name := by
  induction rest generalizing block with
  | nil => cases complete
  | cons piece rest ih =>
    cases piece with
    | text chars => exact ih complete
    | mark mark =>
      rw [outlineFrom] at complete ⊢
      rw [OpenBlock.step] at complete ⊢
      -- a mark that is kept changes neither the sections nor the tag of the block
      have kept : (outlineFrom tags (some ((block.passTag tags mark.name).keepMark mark))
            rest).failure = none →
          block.tag.subTag? block.tag.endName = none ∧ ∃ current later others,
            (outlineFrom tags (some ((block.passTag tags mark.name).keepMark mark)) rest).nodes =
              .block (block.sections ++ current :: later) :: others ∧
            current.name = block.current.name := by
        rw [OpenBlock.passTag_eq]
        exact ih
      cases kind : mark.kind with
      | substitution =>
        rw [kind] at complete
        exact ih complete
      | tag =>
        rw [kind] at complete
        dsimp only at complete ⊢
        by_cases outside : block.nested.isEmpty
        · rw [if_pos outside] at complete ⊢
          cases found : block.tag.subTag? mark.name with
          | some subTag =>
            rw [found] at complete
            -- the current section is complete, and the one that the sub-tag starts comes later
            obtain ⟨noSubTag, current, later, others, nodes, -⟩ := ih complete
            refine ⟨noSubTag, block.current, current :: later, others, ?_, rfl⟩
            rw [nodes]
            simp [OpenBlock.startSection]
          | none =>
            rw [found] at complete
            by_cases closes : mark.name = block.tag.endName
            · simp only [if_pos closes] at complete ⊢
              rw [closes] at found
              exact ⟨found, block.current, [], _, rfl, rfl⟩
            · simp only [if_neg closes] at complete ⊢
              exact kept complete
        · rw [if_neg outside] at complete ⊢
          exact kept complete

namespace OpenBlock

/-- A tag that stands in a block nested in this one is kept. -/
theorem step_of_nested_ne_nil {block : OpenBlock} {mark : Mark} (isTag : mark.kind = .tag)
    (inside : block.nested ≠ []) : block.step tags mark =
      .more ((block.withNested (passName tags block.nested mark.name)).keepMark mark) := by
  have filled : ¬ block.nested.isEmpty = true := by simpa using inside
  rw [step, isTag]
  simp only [if_neg filled, passTag_eq]

/-- The stack of an outer block follows an inner one as long as both see the same tags: it holds
the ends for which the inner block waits, and nothing once the inner block is closed. -/
theorem passName_ends {inner : OpenBlock} {mark : Mark} (isTag : mark.kind = .tag)
    (noSubTag : inner.tag.subTag? inner.tag.endName = none)
    (apart : ∀ handler, inner.step tags mark = .more (inner.startSection mark handler) →
      tags.isBlock mark.name = false) :
    passName tags inner.ends mark.name =
      match inner.step tags mark with
      | .more next => next.ends
      | .closed _ => [] := by
  -- the cases are those of the inner block: nothing nested, and then a sub-tag, the end or neither
  by_cases outside : inner.nested = []
  · cases found : inner.tag.subTag? mark.name with
    | some subTag =>
      have starts : inner.step tags mark = .more (inner.startSection mark subTag.handler) := by
        rw [step, isTag]
        simp [outside, found]
      have differs : mark.name ≠ inner.tag.endName := by
        intro same
        rw [same, noSubTag] at found
        cases found
      have notBlock : tags.block? mark.name = none := by
        simpa [TagRegistry.isBlock] using apart _ starts
      rw [starts, ends, passName_append (.inr differs), outside]
      simp [passName, notBlock, ends, startSection, outside]
    | none =>
      by_cases closes : mark.name = inner.tag.endName
      · have closed : inner.step tags mark = .closed (inner.sections ++ [inner.current]) := by
          rw [step, isTag]
          simp [outside, closes, noSubTag]
        rw [closed, ends, outside, closes]
        simp [passName]
      · have kept : inner.step tags mark =
            .more ((inner.passTag tags mark.name).keepMark mark) := by
          rw [step, isTag]
          simp [outside, found, closes]
        rw [kept, ends, passName_append (.inr closes), passTag_eq]
        rfl
  · rw [step_of_nested_ne_nil isTag outside, ends, passName_append (.inl outside)]
    rfl

/-- Outside of nested blocks a conditional keeps the tags that it does not take for its own. -/
theorem step_conditional {block : OpenBlock} {mark : Mark} (isTag : mark.kind = .tag)
    (conditional : block.tag = conditionalBlock) (outside : block.nested = [])
    (apart : conditionalNames.contains mark.name = false) : block.step tags mark =
      .more ((block.withNested (passName tags [] mark.name)).keepMark mark) := by
  simp only [conditionalNames, List.contains_eq_mem, List.mem_cons, List.not_mem_nil, or_false,
    decide_eq_false_iff_not, not_or] at apart
  obtain ⟨noElif, noElse, noEndIf⟩ := apart
  have noSubTag : conditionalBlock.subTag? mark.name = none := by
    simp [BlockTag.subTag?, conditionalBlock, Ne.symm noElif, Ne.symm noElse]
  have notEnd : mark.name ≠ conditionalBlock.endName := noEndIf
  rw [step, isTag, conditional]
  simp [outside, noSubTag, notEnd, passTag_eq]

end OpenBlock

/-- A block that is closed in the end is a node of the outline, so that its names stay apart. -/
theorem Outline.KeepsApart.block {block : OpenBlock} {rest : List Piece}
    (keepsApart : (outlineFrom tags (some block) rest).KeepsApart tags) :
    ∃ current later, current.name = block.current.name ∧
      (Node.block (block.sections ++ current :: later)).keepsApart tags = true := by
  obtain ⟨-, current, later, others, nodes, sameName⟩ :=
    exists_block_of_complete keepsApart.complete
  refine ⟨current, later, sameName, keepsApart.nodes _ ?_⟩
  rw [nodes]
  exact List.mem_cons_self

private theorem Outline.KeepsApart.opening {mark : Mark} {tag : BlockTag} {rest : List Piece}
    (keepsApart : (outlineFrom tags (some (.ofMark mark tag)) rest).KeepsApart tags) :
    conditionalNames.contains mark.name = false := by
  obtain ⟨current, later, sameName, apart⟩ := keepsApart.block
  have sameName : current.name = mark.name := sameName
  rw [Node.keepsApart, Bool.and_eq_true] at apart
  have first : (!conditionalNames.contains current.name) = true := apart.1
  rwa [sameName, Bool.not_eq_true'] at first

private theorem Outline.KeepsApart.startingSection {block : OpenBlock} {mark : Mark}
    {handler : Option SectionHandler} {rest : List Piece} (keepsApart :
      (outlineFrom tags (some (block.startSection mark handler)) rest).KeepsApart tags) :
    tags.isBlock mark.name = false := by
  obtain ⟨current, later, sameName, apart⟩ := keepsApart.block
  have sameName : current.name = mark.name := sameName
  rw [Node.keepsApart, Bool.and_eq_true, List.all_eq_true] at apart
  have inTail : current ∈ (block.sections ++ [block.current] ++ current :: later).tail := by
    cases block.sections <;> simp
  rw [← sameName, ← Bool.not_eq_true']
  exact apart.2 current inTail

/-- The names on the stack of a conditional in which a block is open, if there is one. -/
def waiting (inner? : Option OpenBlock) : List String :=
  inner?.elim [] OpenBlock.ends

/-- A mark between blocks is kept by the conditional around it. -/
theorem exists_step_between (substitution : tags.block? Mark.substitutionTag = none) {mark : Mark}
    {rest : List Piece} (keepsApart : (outlineFrom tags none (.mark mark :: rest)).KeepsApart tags)
    {outer : OpenBlock} (conditional : outer.tag = conditionalBlock) (nested : outer.nested = []) :
    ∃ next?, (outlineFrom tags next? rest).KeepsApart tags ∧
      outer.step tags mark = .more ((outer.withNested (waiting next?)).keepMark mark) := by
  rw [outlineFrom] at keepsApart
  cases kind : mark.kind with
  | substitution =>
    have isParse : mark.name = Mark.substitutionTag := by rw [Mark.name, kind]
    have same : outer.withNested [] = outer := by rw [← nested]; rfl
    split at keepsApart
    · refine ⟨none, keepsApart.of_prepend.2, ?_⟩
      rw [OpenBlock.step, kind, waiting, Option.elim_none, same]
    · next tag found =>
      rw [isParse] at found
      simp [TagRegistry.block?, found] at substitution
    · exact absurd keepsApart.complete (Option.some_ne_none _)
  | tag =>
    split at keepsApart
    · next handler found =>
      obtain ⟨apart, later⟩ := keepsApart.of_prepend
      rw [Node.keepsApart, Bool.not_eq_true'] at apart
      refine ⟨none, later, ?_⟩
      rw [OpenBlock.step_conditional kind conditional nested apart]
      simp [OpenBlock.passName, TagRegistry.block?, found, waiting]
    · next tag found =>
      refine ⟨some (.ofMark mark tag), keepsApart, ?_⟩
      rw [OpenBlock.step_conditional kind conditional nested keepsApart.opening]
      simp [OpenBlock.passName, TagRegistry.block?, found, waiting, OpenBlock.ends,
        OpenBlock.ofMark]
    · exact absurd keepsApart.complete (Option.some_ne_none _)

/-- A mark inside a block is kept by the conditional around it. -/
theorem exists_step_within {inner : OpenBlock} {mark : Mark} {rest : List Piece}
    (keepsApart : (outlineFrom tags (some inner) (.mark mark :: rest)).KeepsApart tags)
    {outer : OpenBlock} (nested : outer.nested = inner.ends) :
    ∃ next?, (outlineFrom tags next? rest).KeepsApart tags ∧
      outer.step tags mark = .more ((outer.withNested (waiting next?)).keepMark mark) := by
  obtain ⟨noSubTag, -⟩ := exists_block_of_complete keepsApart.complete
  rw [outlineFrom] at keepsApart
  cases kind : mark.kind with
  | substitution =>
    have same : outer.withNested (inner.keepMark mark).ends = outer := by
      rw [show (inner.keepMark mark).ends = outer.nested from nested.symm]
      rfl
    rw [OpenBlock.step, kind] at keepsApart
    refine ⟨some (inner.keepMark mark), keepsApart, ?_⟩
    rw [OpenBlock.step, kind, waiting, Option.elim_some, same]
  | tag =>
    have apart : ∀ handler, inner.step tags mark = .more (inner.startSection mark handler) →
        tags.isBlock mark.name = false := by
      intro handler starts
      rw [starts] at keepsApart
      exact keepsApart.startingSection
    have inside : outer.nested ≠ [] := by
      rw [nested]
      exact List.append_ne_nil_of_right_ne_nil _ (List.cons_ne_nil _ _)
    have stack := OpenBlock.passName_ends kind noSubTag apart
    have stepOuter : outer.step tags mark =
        .more ((outer.withNested (OpenBlock.passName tags outer.nested mark.name)).keepMark mark) :=
      OpenBlock.step_of_nested_ne_nil kind inside
    rw [nested, stack] at stepOuter
    cases stepped : inner.step tags mark with
    | more next =>
      rw [stepped] at keepsApart stepOuter
      exact ⟨some next, keepsApart, stepOuter⟩
    | closed sections =>
      rw [stepped] at keepsApart stepOuter
      exact ⟨none, keepsApart.of_prepend.2, stepOuter⟩

/-- A template inside a conditional leaves the conditional as it found it, with the text of the
template added to its current section. -/
theorem outlineFrom_inside (substitution : tags.block? Mark.substitutionTag = none)
    {inner? : Option OpenBlock} {front : List Piece}
    (keepsApart : (outlineFrom tags inner? front).KeepsApart tags) {outer : OpenBlock}
    (conditional : outer.tag = conditionalBlock) (nested : outer.nested = waiting inner?)
    (more : List Piece) :
    outlineFrom tags (some outer) (joinPieces front more) =
      outlineFrom tags
        (some ((outer.addText (front.flatMap Piece.source)).withNested [])) more := by
  induction front generalizing inner? outer with
  | nil =>
    cases inner? with
    | none =>
      have same : (outer.addText []).withNested [] = outer := by
        rw [OpenBlock.addText_nil, ← show outer.nested = [] from nested]
        rfl
      rw [List.flatMap_nil, same]
      rfl
    | some inner => exact absurd keepsApart.complete (Option.some_ne_none _)
  | cons piece rest ih =>
    -- the piece joins the section, and the stack follows the blocks of the template
    have kept (next? : Option OpenBlock) (later : (outlineFrom tags next? rest).KeepsApart tags) :
        outlineFrom tags (some ((outer.withNested (waiting next?)).addText piece.source))
            (joinPieces rest more) =
          outlineFrom tags (some ((outer.addText ((piece :: rest).flatMap
            Piece.source)).withNested [])) more := by
      have behind := @ih _ later ((outer.withNested (waiting next?)).addText piece.source)
        conditional rfl
      rw [behind, OpenBlock.addText_append]
      rfl
    cases piece with
    | text chars =>
      have same : outer.withNested (waiting inner?) = outer := by rw [← nested]; rfl
      rw [joinPieces, outlineFrom_some_foldr_consText, ← same]
      cases inner? with
      | none => exact kept none keepsApart.of_prepend.2
      | some inner => exact kept (some (inner.addText chars)) keepsApart
    | mark mark =>
      have stepped : ∃ next?, (outlineFrom tags next? rest).KeepsApart tags ∧
          outer.step tags mark = .more ((outer.withNested (waiting next?)).keepMark mark) := by
        cases inner? with
        | none => exact exists_step_between substitution keepsApart conditional nested
        | some inner => exact exists_step_within keepsApart nested
      obtain ⟨next?, later, stepped⟩ := stepped
      rw [joinPieces, outlineFrom, stepped]
      exact kept next? later

private theorem isMark_if : IsMark .tag "if" "True" "{% if True %}".toList := by
  have named : (⟨.tag, " if True ".toList, .start⟩ : Mark).name = "if" ∧
      (⟨.tag, " if True ".toList, .start⟩ : Mark).arguments = "True" := by decide
  have closes (rest : List Char) : breakAt? MarkKind.tag.closer
      (" if True ".toList ++ '%' :: '\x7d' :: rest) = some (" if True ".toList, rest) := rfl
  exact isMark_of_breakAt? .tag closes fun _ => named

private theorem isMark_endif : IsMark .tag "endif" "" "{% endif %}".toList := by
  have named : (⟨.tag, " endif ".toList, .start⟩ : Mark).name = "endif" ∧
      (⟨.tag, " endif ".toList, .start⟩ : Mark).arguments = "" := by decide
  have closes (rest : List Char) : breakAt? MarkKind.tag.closer
      (" endif ".toList ++ '%' :: '\x7d' :: rest) = some (" endif ".toList, rest) := rfl
  exact isMark_of_breakAt? .tag closes fun _ => named

private theorem Outline.KeepsApart.of_alike {first second : Outline}
    (keepsApart : first.KeepsApart tags) (alike : first.Alike second) : second.KeepsApart tags := by
  refine ⟨?_, alike.nodes ▸ keepsApart.nodes⟩
  have complete := alike.failed
  rw [keepsApart.complete] at complete
  exact Option.isNone_iff_eq_none.mp (Option.isSome_eq_false_iff.mp complete.symm)

/-- A conditional around a template is a single node, whose only section is the template. -/
theorem outline_conditional (isConditional : tags.find? "if" = some (.block conditionalBlock))
    (substitution : tags.block? Mark.substitutionTag = none) {source : String}
    (settled : IsSettled source) (keepsApart : (outline tags source).KeepsApart tags) :
    outline tags ("{% if True %}" ++ source ++ "{% endif %}") =
      ⟨[.block [⟨"if", "True", conditional, source⟩]], none⟩ := by
  obtain ⟨opening, openingKind, openingName, openingArguments, -, openingCut⟩ := isMark_if .start
  obtain ⟨closing, closingKind, closingName, -, -, closingCut⟩ := isMark_endif
    ((Position.start.advanceBy "{% if True %}".toList).advanceBy source.toList)
  have inside := keepsApart.of_alike
    (alike_piecesFrom tags .start (Position.start.advanceBy "{% if True %}".toList) source.toList)
  have lastPiece := closingCut []
  rw [List.append_nil, piecesFrom] at lastPiece
  have closes : (((OpenBlock.ofMark opening conditionalBlock).addText source.toList).withNested
      []).step tags closing = .closed [⟨"if", "True", conditional, source⟩] := by
    rw [OpenBlock.step, closingKind, closingName]
    simp [OpenBlock.withNested, OpenBlock.addText, OpenBlock.ofMark, OpenBlock.sectionOf,
      openingName, openingArguments, conditionalBlock, BlockTag.subTag?]
  rw [outline, pieces, String.toList_append, String.toList_append, List.append_assoc, openingCut,
    piecesFrom_append (settled.isSettledAt _), lastPiece, outlineFrom, openingName, isConditional]
  simp only
  rw [outlineFrom_inside substitution inside rfl rfl, source_piecesFrom, outlineFrom, closes]
  rfl

end Template

open Template

namespace Engine

section Extensions

/-- Adds tags one after the other, see `Engine.registerTag`. -/
def registerTags (engine : Engine) (additions : List (String × Tag)) : Result Engine :=
  additions.foldlM (fun engine addition => engine.registerTag addition.1 addition.2) engine

/-- An engine that has further tags and is the same otherwise. -/
structure Extends (larger engine : Engine) (additions : List (String × Tag)) : Prop where
  others : larger = { engine with tags := larger.tags }
  kept : ∀ name tag, engine.tags.find? name = some tag → larger.tags.find? name = some tag
  added : ∀ name tag, larger.tags.find? name = some tag →
    engine.tags.find? name = some tag ∨ (name, tag) ∈ additions

private theorem extends_of_registerTag {engine larger : Engine} {name : String} {tag : Tag}
    (registered : engine.registerTag name tag = .ok larger) :
    larger.Extends engine [(name, tag)] := by
  obtain ⟨tags, added, same⟩ := Result.bind_eq_ok.mp registered
  cases same
  rw [TagRegistry.add] at added
  split at added
  · cases added
  · next free =>
    cases added
    have found (other : String) : TagRegistry.find? ⟨engine.tags.table.insert name tag⟩ other =
        if other = name then some tag else engine.tags.find? other :=
      engine.tags.table.find?_insert name other tag
    refine ⟨rfl, fun other definition isFound => ?_, fun other definition isFound => ?_⟩
    · rw [found, if_neg, isFound]
      rintro rfl
      have absent : engine.tags.table.find? other = none := by simpa [Table.contains] using free
      rw [TagRegistry.find?] at isFound
      rw [absent] at isFound
      cases isFound
    · rw [found] at isFound
      split at isFound
      · next same =>
        cases isFound
        exact .inr (by rw [same]; exact List.mem_cons_self)
      · exact .inl isFound

private theorem extends_of_registerTags {engine larger : Engine} {additions : List (String × Tag)}
    (registered : engine.registerTags additions = .ok larger) :
    larger.Extends engine additions := by
  induction additions generalizing engine with
  | nil =>
    cases registered
    exact ⟨rfl, fun _ _ found => found, fun _ _ found => .inl found⟩
  | cons addition rest ih =>
    obtain ⟨next, first, later⟩ := Result.bind_eq_ok.mp registered
    have firstExtends := extends_of_registerTag first
    have laterExtends := ih later
    refine ⟨?_, fun name tag found => laterExtends.kept name tag (firstExtends.kept name tag found),
      fun name tag found => ?_⟩
    · rw [laterExtends.others, firstExtends.others]
    · rcases laterExtends.added name tag found with before | isNew
      · rcases firstExtends.added name tag before with base | isFirst
        · exact .inl base
        · exact .inr (List.mem_cons.mpr (.inl (List.mem_singleton.mp isFirst)))
      · exact .inr (List.mem_cons_of_mem _ isNew)

/-- Further tags whose handlers respect the limit, next to tags whose handlers do. -/
theorem Extends.respectsLimit {strict : Bool} {larger engine : Engine}
    {additions : List (String × Tag)} (extension : larger.Extends engine additions)
    (standard : engine.tags = StandardTag.all)
    (respects : ∀ addition ∈ additions, addition.2.RespectsLimit strict) :
    larger.tags.RespectsLimit strict := by
  intro name tag found
  rcases extension.added name tag found with base | isNew
  · rw [standard] at base
    exact StandardTag.respectsLimit_all name tag base
  · exact respects _ isNew

end Extensions

section Conditional

/-- A text can only be rendered if its outline is complete. -/
theorem complete_of_renderOutline {engine : Engine} {deeper : String → Context → Result String}
    {context : Context} {outline : Outline} {text : String}
    (rendered : engine.renderOutline deeper context outline = .ok text) :
    outline.failure = none := by
  obtain ⟨parts, -, rest⟩ := Result.bind_eq_ok.mp rendered
  cases complete : outline.failure with
  | none => rfl
  | some failure =>
    rw [complete] at rest
    cases rest

/-- A conditional that holds renders its section. -/
theorem renderOutline_conditional {engine : Engine} {source : String}
    (reads : engine.read "True" = .ok [.operator (.constant .truth)])
    (unstripped : engine.options.stripBodies = false)
    (deeper : String → Context → Result String) (context : Context) :
    engine.renderOutline deeper context ⟨[.block [⟨"if", "True", conditional, source⟩]], none⟩ =
      deeper source context := by
  have holds (name : String) (load : String → Result (Option String)) :
      TagCall.evaluate ⟨name, [.operator (.constant .truth)], context, deeper, load⟩ =
        .ok (.bool true) := rfl
  have body : engine.sectionBody deeper source = ⟨source, deeper⟩ := by
    rw [sectionBody, unstripped]
    rfl
  simp only [renderOutline, List.mapM_cons, List.mapM_nil, renderNode, renderSections, call, reads,
    body, conditional, holds, Result.ok_bind, SectionBody.render, pure_bind, bind_assoc]
  rw [if_pos (.inl trivial)]
  cases deeper source context with
  | error failure => rfl
  | ok output => exact congrArg Except.ok (by simp [String.join_cons])

/-- A template that renders also renders inside a conditional, one level deeper, to the same text,
as long as the names of its tags stay apart from those of the conditional. -/
theorem renderSource_conditional {base engine : Engine} {additions : List (String × Tag)}
    (standard : base.tags = StandardTag.all)
    (reads : base.read "True" = .ok [.operator (.constant .truth)])
    (registered : base.registerTags additions = .ok engine)
    (respects : ∀ addition ∈ additions, addition.2.RespectsLimit true)
    (unstripped : base.options.stripBodies = false) {source : String}
    (settled : IsSettled source)
    (apart : ∀ node ∈ (outline engine.tags source).nodes, node.keepsApart engine.tags = true)
    {limit : Nat} {context : Context} {text : String}
    (rendered : (engine.withLimit limit).renderSource source context = .ok text) :
    (engine.withLimit (limit + 1)).renderSource ("{% if True %}" ++ source ++ "{% endif %}")
      context = .ok text := by
  have extension := extends_of_registerTags registered
  have isConditional : engine.tags.find? "if" = some (.block conditionalBlock) := by
    apply extension.kept
    rw [standard, find?_all]
    rfl
  have substitution : engine.tags.block? Mark.substitutionTag = none := by
    have isParse : engine.tags.find? Mark.substitutionTag = some (.inline parse) := by
      apply extension.kept
      rw [standard, find?_all]
      rfl
    rw [TagRegistry.block?, isParse]
  have deeper : (engine.withLimit (limit + 1)).renderWithin (limit + 1) source context =
      .ok text :=
    (renderWithin_upToLimit (extension.respectsLimit standard respects) (Nat.le_refl _)
      (fun _ => rfl) limit (limit + 1) source context).ok_of_ok rendered
  have complete : (outline engine.tags source).failure = none :=
    complete_of_renderOutline rendered
  have node : outline (engine.withLimit (limit + 1)).tags
      ("{% if True %}" ++ source ++ "{% endif %}") =
        ⟨[.block [⟨"if", "True", conditional, source⟩]], none⟩ :=
    outline_conditional isConditional substitution settled ⟨complete, apart⟩
  have sameReads : (engine.withLimit (limit + 1)).read "True" =
      .ok [.operator (.constant .truth)] := by
    rw [extension.others]
    exact reads
  have sameOptions : (engine.withLimit (limit + 1)).options.stripBodies = false := by
    rw [extension.others]
    exact unstripped
  calc (engine.withLimit (limit + 1)).renderSource
        ("{% if True %}" ++ source ++ "{% endif %}") context
      = (engine.withLimit (limit + 1)).renderWithin (limit + 1) source context := by
        rw [renderSource, renderWithin, node]
        exact renderOutline_conditional sameReads sameOptions _ context
    _ = .ok text := deeper

/-- An engine with the standard tags that keeps bodies as they are. -/
def plainEngine : Engine :=
  { options := { stripBodies := false } }

/-- An inline tag that writes a rule. -/
def ruleTag : Tag :=
  .inline fun _ => .ok "-"

/-- A block tag that renders its section unless its arguments hold. It ends like a conditional. -/
def unlessTag : Tag :=
  .block ⟨fun call body => do
    match ← call.evaluate with
    | .bool true => return none
    | _ => return some (← body.render call.context), "endif", [⟨"otherwise", none⟩]⟩

def unlessEngine : Engine :=
  { plainEngine with
    tags := ⟨(StandardTag.all.table.insert "unless" unlessTag).insert "rule" ruleTag⟩ }

def unlessSource : String :=
  "{% unless True %}a{% if True %}b{% endif %}{% otherwise %}c{% endif %}{% rule %}"

theorem renderSource_conditional_unless :
    plainEngine.tags = StandardTag.all ∧
      plainEngine.read "True" = .ok [.operator (.constant .truth)] ∧
      plainEngine.registerTags [("unless", unlessTag), ("rule", ruleTag)] = .ok unlessEngine ∧
      (∀ addition ∈ [("unless", unlessTag), ("rule", ruleTag)], addition.2.RespectsLimit true) ∧
      plainEngine.options.stripBodies = false ∧ IsSettled unlessSource ∧
      (∀ node ∈ (outline unlessEngine.tags unlessSource).nodes,
        node.keepsApart unlessEngine.tags = true) ∧
      (unlessEngine.withLimit 1).renderSource unlessSource { } = .ok "c-" ∧
      (unlessEngine.withLimit 2).renderSource
        ("{% if True %}" ++ unlessSource ++ "{% endif %}") { } = .ok "c-" := by
  have reads : plainEngine.read "True" = .ok [.operator (.constant .truth)] :=
    Expression.read_of_spells (Expression.spells_operator (.constant .truth))
  have registered :
      plainEngine.registerTags [("unless", unlessTag), ("rule", ruleTag)] = .ok unlessEngine := rfl
  have respects :
      ∀ addition ∈ [("unless", unlessTag), ("rule", ruleTag)], addition.2.RespectsLimit true := by
    refine List.forall_mem_cons.mpr ⟨⟨fun call text other agree => ?_, fun subTag member => ?_⟩,
      List.forall_mem_singleton.mpr fun call other agree => .same _⟩
    · refine Result.UpToLimit.bind (.same _) fun value => ?_
      split
      · exact .same _
      · exact (agree text call.context).bind fun output => .same _
    · rw [List.mem_singleton.mp member]
      nofun
  have settled : IsSettled unlessSource := by decide +kernel
  have apart : ∀ node ∈ (outline unlessEngine.tags unlessSource).nodes,
      node.keepsApart unlessEngine.tags = true := by decide +kernel
  have rendered : (unlessEngine.withLimit 1).renderSource unlessSource { } = .ok "c-" := by
    decide +kernel
  exact ⟨rfl, reads, registered, respects, rfl, settled, apart, rendered,
    renderSource_conditional rfl reads registered respects rfl settled apart rendered⟩

/-- A block tag with a sub-tag that has the name of a standard block. -/
def boxTag : Tag :=
  .block ⟨fun call body => do return some (← body.render call.context), "endbox", [⟨"if", none⟩]⟩

/-- An inline tag that writes how many levels were allowed when there is none left. -/
def probeTag : Tag :=
  .inline fun call =>
    match call.render "" with
    | .error (.recursionLimit limit) => .ok (toString limit)
    | answer => answer

/-- Renders a template with a further tag and no context. -/
def renderWith (name : String) (tag : Tag) (limit : Nat) (source : String) : Result String := do
  let engine ← plainEngine.registerTags [(name, tag)]
  (engine.withLimit limit).renderSource source { }

/-- Without these conditions a template may render differently inside a conditional: the
conditional takes an inline tag named `else` for its own, it takes the sub-tag `if` of another
block for a block, and a tag may write the limit. -/
theorem not_renderSource_conditional :
    IsSettled "a{% else %}b" ∧
      renderWith "else" ruleTag 0 "a{% else %}b" = .ok "a-b" ∧
      renderWith "else" ruleTag 1 ("{% if True %}" ++ "a{% else %}b" ++ "{% endif %}") = .ok "a" ∧
    IsSettled "{% box %}x{% if %}y{% endbox %}" ∧
      renderWith "box" boxTag 1 "{% box %}x{% if %}y{% endbox %}" = .ok "x" ∧
      renderWith "box" boxTag 2
          ("{% if True %}" ++ "{% box %}x{% if %}y{% endbox %}" ++ "{% endif %}") =
        .error (.unclosedBlock "if" 1 1) ∧
    IsSettled "{% probe %}" ∧
      renderWith "probe" probeTag 0 "{% probe %}" = .ok "0" ∧
      renderWith "probe" probeTag 1 ("{% if True %}" ++ "{% probe %}" ++ "{% endif %}") =
        .ok "1" := by
  decide +kernel

end Conditional

end Engine

end Stencil
