import Stencil.Proofs.Pieces
import Stencil.Proofs.TreeRendering

/-! # Rendering texts put together

Rendering respects concatenation: behind a text that renders and outside of whose marks no opening
brace stands, another text renders as it does alone, whatever the tags and their handlers are:
`Engine.renderSource_append`. Nothing of the state in which the first text is cut into nodes
reaches the second one, because no block is open behind a text that renders.
-/

namespace Stencil

namespace Template

/-- A template outside of whose marks no opening brace stands. -/
def IsSettled (source : String) : Prop :=
  ∀ chars, .text chars ∈ pieces source.toList → '\x7b' ∉ chars

/-- A piece that is a mark or a text without opening braces. -/
def Piece.isSettled : Piece → Bool
  | .text chars => !chars.contains '\x7b'
  | .mark _ => true

instance (source : String) : Decidable (IsSettled source) :=
  decidable_of_iff (∀ piece ∈ pieces source.toList, piece.isSettled = true) <| by
    constructor
    · intro allSettled chars member
      simpa [Piece.isSettled] using allSettled _ member
    · intro settled piece member
      cases piece with
      | text chars => simpa [Piece.isSettled] using settled chars member
      | mark found => rfl

@[simp] theorem text_mem_map_unplaced {chars : List Char} {pieces : List Piece} :
    .text chars ∈ pieces.map Piece.unplaced ↔ .text chars ∈ pieces := by
  rw [List.mem_map]
  constructor
  · rintro ⟨piece, member, same⟩
    cases piece with
    | text other => rwa [← same]
    | mark found => cases same
  · exact fun member => ⟨.text chars, member, rfl⟩

/-- A settled template is settled wherever it stands. -/
theorem IsSettled.isSettledAt {source : String} (settled : IsSettled source)
    (position : Position) : IsSettledAt position source.toList := by
  intro chars member
  apply settled chars
  rwa [pieces, ← text_mem_map_unplaced, unplaced_piecesFrom .start position,
    text_mem_map_unplaced]

private theorem isSettled_of_plain {source : String} (plain : '\x7b' ∉ source.toList) :
    IsSettled source := by
  intro chars member brace
  apply plain
  rw [← source_pieces source.toList]
  exact List.mem_flatMap.mpr ⟨_, member, brace⟩

section Unplaced

namespace OpenBlock

/-- The block without its place. -/
def unplaced (block : OpenBlock) : OpenBlock :=
  { block with position := .start }

private theorem passTag_unplaced (tags : TagRegistry) (block : OpenBlock) (name : String) :
    block.unplaced.passTag tags name = (block.passTag tags name).unplaced := by
  rw [passTag, passTag, unplaced]
  split
  · rfl
  · split <;> rfl

/-- Places do not matter to what a mark does to a block. -/
private theorem step_unplaced (tags : TagRegistry) (block : OpenBlock) (mark : Mark) :
    block.unplaced.step tags mark.unplaced =
      match block.step tags mark with
      | .more next => .more next.unplaced
      | .closed sections => .closed sections := by
  have kept : (block.unplaced.passTag tags mark.name).keepMark mark.unplaced =
      ((block.passTag tags mark.name).keepMark mark).unplaced := by
    rw [passTag_unplaced]
    rfl
  have sameName : mark.unplaced.name = mark.name := rfl
  have sameTag : block.unplaced.tag = block.tag := rfl
  rw [step, step, sameName, sameTag, show mark.unplaced.kind = mark.kind from rfl]
  cases mark.kind with
  | substitution => rfl
  | tag =>
    dsimp only
    by_cases outside : block.nested.isEmpty
    · rw [if_pos outside, if_pos (show block.unplaced.nested.isEmpty from outside)]
      cases block.tag.subTag? mark.name with
      | some subTag => rfl
      | none =>
        by_cases ends : mark.name = block.tag.endName
        · simp only [if_pos ends]
          rfl
        · simp only [if_neg ends, kept]
    · rw [if_neg outside, if_neg (show ¬ block.unplaced.nested.isEmpty from outside), kept]

end OpenBlock

/-- Two outlines with the same nodes, of which both or none are complete. -/
structure Outline.Alike (first second : Outline) : Prop where
  nodes : first.nodes = second.nodes
  failed : first.failure.isSome = second.failure.isSome

private theorem Outline.Alike.prepend {first second : Outline} (alike : first.Alike second)
    (node : Node) : (first.prepend node).Alike (second.prepend node) :=
  ⟨congrArg (node :: ·) alike.nodes, alike.failed⟩

/-- Places only matter to the failure of an outline. -/
theorem alike_outlineFrom (tags : TagRegistry) (block? : Option OpenBlock) (pieces : List Piece) :
    (outlineFrom tags block? pieces).Alike
      (outlineFrom tags (block?.map OpenBlock.unplaced) (pieces.map Piece.unplaced)) := by
  induction pieces generalizing block? with
  | nil => cases block? <;> exact ⟨rfl, rfl⟩
  | cons piece rest ih =>
    cases piece with
    | text chars =>
      cases block? with
      | none => exact (ih none).prepend _
      | some block => exact ih (some (block.addText chars))
    | mark mark =>
      cases block? with
      | none =>
        rw [List.map_cons, Piece.unplaced, Option.map_none, outlineFrom, outlineFrom,
          show mark.unplaced.name = mark.name from rfl]
        split
        · exact (ih none).prepend _
        · next tag found => exact ih (some (.ofMark mark tag))
        · exact ⟨rfl, rfl⟩
      | some block =>
        rw [List.map_cons, Piece.unplaced, Option.map_some, outlineFrom, outlineFrom,
          OpenBlock.step_unplaced]
        cases block.step tags mark with
        | more next => exact ih (some next)
        | closed sections => exact (ih none).prepend _

private theorem Outline.Alike.symm {first second : Outline} (alike : first.Alike second) :
    second.Alike first :=
  ⟨alike.nodes.symm, alike.failed.symm⟩

private theorem Outline.Alike.trans {first second third : Outline} (alike : first.Alike second)
    (others : second.Alike third) : first.Alike third :=
  ⟨alike.nodes.trans others.nodes, alike.failed.trans others.failed⟩

/-- Where a template stands only matters to the failure of its outline. -/
theorem alike_piecesFrom (tags : TagRegistry) (position other : Position) (text : List Char) :
    (outlineFrom tags none (piecesFrom position text)).Alike
      (outlineFrom tags none (piecesFrom other text)) := by
  have second := alike_outlineFrom tags none (piecesFrom other text)
  rw [unplaced_piecesFrom other position] at second
  exact (alike_outlineFrom tags none (piecesFrom position text)).trans second.symm

end Unplaced

end Template

open Template

namespace Engine

section Outline

variable (engine : Engine) (deeper : String → Context → Result String) (context : Context)

/-- Whether an outline is complete and what its nodes render to is all there is to its text. -/
private theorem renderOutline_eq_ok_of_alike {first second : Outline} (alike : first.Alike second)
    {text : String} (rendered : engine.renderOutline deeper context first = .ok text) :
    engine.renderOutline deeper context second = .ok text := by
  obtain ⟨parts, nodesRendered, rest⟩ := Result.bind_eq_ok.mp rendered
  rw [renderOutline, ← alike.nodes, nodesRendered, Result.ok_bind]
  have failed := alike.failed
  cases complete : first.failure with
  | some failure =>
    rw [complete] at rest
    cases rest
  | none =>
    rw [complete] at rest failed
    cases sameComplete : second.failure with
    | some failure =>
      rw [sameComplete] at failed
      cases failed
    | none => exact rest

private theorem renderOutline_foldr_consText {tags : TagRegistry} (chars : List Char)
    (rest : List Piece) :
    engine.renderOutline deeper context (outlineFrom tags none (chars.foldr consText rest)) = do
      let text ← engine.renderOutline deeper context (outlineFrom tags none rest)
      return String.ofList chars ++ text := by
  induction chars with
  | nil =>
    have same (text : String) : String.ofList [] ++ text = text := by simp
    simp only [same]
    exact (bind_pure _).symm
  | cons c others ih =>
    have join (text : String) : String.singleton c ++ (String.ofList others ++ text) =
        String.ofList (c :: others) ++ text := by
      rw [← String.toList_inj]
      simp
    rw [List.foldr_cons, renderOutline_consText, ih]
    simp only [bind_assoc, pure_bind, join]

/-- Behind pieces that render no block is open, so that what follows renders as it does alone. -/
private theorem renderOutline_joinPieces {tags : TagRegistry} {block? : Option OpenBlock}
    {front : List Piece} {text : String}
    (rendered : engine.renderOutline deeper context (outlineFrom tags block? front) = .ok text)
    (more : List Piece) :
    engine.renderOutline deeper context (outlineFrom tags block? (joinPieces front more)) = do
      let rest ← engine.renderOutline deeper context (outlineFrom tags none more)
      return text ++ rest := by
  induction front generalizing block? text with
  | nil =>
    cases block? with
    | none =>
      obtain rfl : "" = text := Except.ok.inj rendered
      simp only [String.empty_append]
      exact (bind_pure _).symm
    | some block => cases rendered
  | cons piece rest ih =>
    -- a node in front of both outlines
    have prepended (node : Node) (here : engine.renderOutline deeper context
          ((outlineFrom tags none rest).prepend node) = .ok text) :
        engine.renderOutline deeper context
            ((outlineFrom tags none (joinPieces rest more)).prepend node) = do
          let others ← engine.renderOutline deeper context (outlineFrom tags none more)
          return text ++ others := by
      rw [renderOutline_prepend] at here ⊢
      obtain ⟨first, firstRendered, here⟩ := Result.bind_eq_ok.mp here
      obtain ⟨later, laterRendered, same⟩ := Result.bind_eq_ok.mp here
      cases same
      rw [firstRendered, ih laterRendered, Result.ok_bind]
      simp only [bind_assoc, pure_bind, String.append_assoc]
    cases piece with
    | text chars =>
      cases block? with
      | none =>
        have asNode := prepended (.text (String.ofList chars)) rendered
        rw [renderOutline_text] at asNode
        rw [joinPieces, renderOutline_foldr_consText, asNode]
      | some block =>
        rw [outlineFrom] at rendered
        rw [joinPieces, outlineFrom_some_foldr_consText, ih rendered]
    | mark mark =>
      rw [joinPieces]
      cases block? with
      | none =>
        rw [outlineFrom] at rendered ⊢
        split at rendered
        · exact prepended _ rendered
        · exact ih rendered
        · cases rendered
      | some block =>
        rw [outlineFrom] at rendered ⊢
        split at rendered
        · exact ih rendered
        · exact prepended _ rendered

end Outline

/-- Behind a settled text that renders, another text renders as it does alone. -/
theorem renderWithin_append (engine : Engine) {levels : Nat} {source : String} {context : Context}
    {text : String} (settled : IsSettled source)
    (rendered : engine.renderWithin levels source context = .ok text) (next rest : String) :
    engine.renderWithin levels (source ++ next) context = .ok (text ++ rest) ↔
      engine.renderWithin levels next context = .ok rest := by
  cases levels with
  | zero => cases rendered
  | succ levels =>
    rw [renderWithin, outline, pieces] at rendered
    have behind := alike_piecesFrom engine.tags .start (Position.start.advanceBy source.toList)
      next.toList
    rw [renderWithin, renderWithin, outline, outline, pieces, pieces, String.toList_append,
      piecesFrom_append (settled.isSettledAt .start) next.toList,
      renderOutline_joinPieces _ _ _ rendered]
    constructor
    · intro together
      obtain ⟨later, laterRendered, same⟩ := Result.bind_eq_ok.mp together
      have sameText : text ++ later = text ++ rest := Except.ok.inj same
      rw [String.append_right_inj] at sameText
      rw [sameText] at laterRendered
      exact renderOutline_eq_ok_of_alike _ _ _ behind.symm laterRendered
    · intro alone
      rw [renderOutline_eq_ok_of_alike _ _ _ behind alone]
      rfl

/-- Text without opening braces is copied. -/
theorem renderWithin_plain (engine : Engine) (levels : Nat) {plain : String}
    (noOpener : '\x7b' ∉ plain.toList) (context : Context) :
    engine.renderWithin (levels + 1) plain context = .ok plain := by
  have copied := @renderOutline_plain engine (engine.renderWithin levels) context engine.tags _
    noOpener .start []
  rw [List.append_nil, piecesFrom, outlineFrom] at copied
  rw [renderWithin, outline, pieces, copied]
  change Except.ok (String.ofList plain.toList ++ "") = .ok plain
  rw [String.ofList_toList, String.append_empty]

/-- Behind a settled text that renders, with or without plain text in between, another text
renders as it does alone; and plain text renders to itself. -/
theorem renderSource_append (engine : Engine) (context : Context) :
    (∀ source text next rest, IsSettled source → engine.renderSource source context = .ok text →
      (engine.renderSource (source ++ next) context = .ok (text ++ rest) ↔
        engine.renderSource next context = .ok rest)) ∧
    (∀ plain : String, '\x7b' ∉ plain.toList → engine.renderSource plain context = .ok plain) ∧
    (∀ source text plain next rest, IsSettled source → '\x7b' ∉ plain.toList →
      engine.renderSource source context = .ok text →
      (engine.renderSource (source ++ plain ++ next) context = .ok (text ++ plain ++ rest) ↔
        engine.renderSource next context = .ok rest)) := by
  refine ⟨fun source text next rest settled rendered =>
      renderWithin_append engine settled rendered next rest,
    fun plain noOpener => renderWithin_plain engine _ noOpener context, ?_⟩
  intro source text plain next rest settled noOpener rendered
  rw [String.append_assoc, String.append_assoc, renderSource, renderSource,
    renderWithin_append engine settled rendered]
  exact renderWithin_append engine (isSettled_of_plain noOpener)
    (renderWithin_plain engine _ noOpener context) next rest

/-- A block tag that renders its section twice. -/
def twice : Tag :=
  .block ⟨fun call body => do
    let first ← body.render call.context
    let second ← body.render call.context
    return some (first ++ second), "end", []⟩

/-- An engine with such a tag. -/
def twiceEngine : Engine :=
  { tags := ⟨StandardTag.all.table.insert "twice" twice⟩ }

theorem renderSource_append_twice :
    IsSettled "a{% twice %}b{{ 1 }}{% end %}" ∧ '\x7b' ∉ " \x7d ".toList ∧
      twiceEngine.renderSource "a{% twice %}b{{ 1 }}{% end %}" { } = .ok "ab1b1" ∧
      (twiceEngine.renderSource ("a{% twice %}b{{ 1 }}{% end %}" ++ " \x7d " ++ "{{ 2 }}") { } =
          .ok ("ab1b1" ++ " \x7d " ++ "2") ↔
        twiceEngine.renderSource "{{ 2 }}" { } = .ok "2") ∧
      (twiceEngine.renderSource ("a{% twice %}b{{ 1 }}{% end %}" ++ "{% end %}") { } =
          .ok ("ab1b1" ++ "") ↔
        twiceEngine.renderSource "{% end %}" { } = .ok "") := by
  have settled : IsSettled "a{% twice %}b{{ 1 }}{% end %}" := by decide +kernel
  have rendered : twiceEngine.renderSource "a{% twice %}b{{ 1 }}{% end %}" { } = .ok "ab1b1" := by
    decide +kernel
  have plain : '\x7b' ∉ " \x7d ".toList := by decide
  obtain ⟨append, -, appendPlain⟩ := renderSource_append twiceEngine { }
  exact ⟨settled, plain, rendered, appendPlain _ _ _ _ _ settled plain rendered,
    append _ _ _ _ settled rendered⟩

end Engine

end Stencil
