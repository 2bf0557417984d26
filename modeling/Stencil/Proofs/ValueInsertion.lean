import Stencil.Engine
import Stencil.Proofs.OutlineParts
import Stencil.Proofs.ValueOrigin

/-! # Values are not rendered again

A text that a substitution inserts is never taken for a part of the template: if a name occurs
only in substitutions of its own, it may as well be bound to a placeholder, and the placeholder be
replaced in the output, `Engine.renderSource_insert`. The placeholder is a character that occurs
nowhere else, so that its occurrences in the output are those of the value. The proof runs two
renderings side by side, whose contexts differ in that name alone.
-/

namespace Stencil

namespace Text

/-- The text with every occurrence of a character replaced by another text. -/
def fill (placeholder : Char) (filling text : String) : String :=
  String.ofList (text.toList.flatMap fun c => if c = placeholder then filling.toList else [c])

variable {placeholder : Char} {filling : String}

@[simp] theorem fill_append (first second : String) : fill placeholder filling (first ++ second) =
    fill placeholder filling first ++ fill placeholder filling second := by
  rw [fill, String.toList_append, List.flatMap_append, String.ofList_append]
  rfl

private theorem fill_join (texts : List String) : fill placeholder filling (String.join texts) =
    String.join (texts.map (fill placeholder filling)) := by
  induction texts with
  | nil => rfl
  | cons text rest ih => rw [List.map_cons, String.join_cons, String.join_cons, fill_append, ih]

@[simp] theorem fill_placeholder : fill placeholder filling placeholder.toString = filling := by
  rw [fill, Char.toString_eq_singleton, String.toList_singleton, List.flatMap_singleton, if_pos rfl,
    String.ofList_toList]

/-- Text without the placeholder stays as it is. -/
theorem fill_of_not_mem {text : String} (absent : placeholder ∉ text.toList) :
    fill placeholder filling text = text := by
  have kept : ∀ c ∈ text.toList, (if c = placeholder then filling.toList else [c]) = [c] := by
    intro c member
    refine if_neg ?_
    rintro rfl
    exact absent member
  rw [fill, List.flatMap_def, List.map_congr_left kept, ← List.flatMap_def,
    List.flatMap_singleton', String.ofList_toList]

end Text

namespace Result

variable {α β γ δ : Type}

/-- Operations after which the same mapping leads from one answer to the other. -/
private theorem bind_eq_map {x : Result α} {f : α → Result γ} {g : α → Result β} {k : β → γ}
    (later : ∀ a, x = .ok a → f a = (g a).map k) : x >>= f = (x >>= g).map k := by
  cases x with
  | ok a => exact later a rfl
  | error failure => rfl

private theorem map_bind_eq_map {x : Result α} {h : α → β} {f : β → Result δ} {g : α → Result γ}
    {k : γ → δ} (later : ∀ a, f (h a) = (g a).map k) : x.map h >>= f = (x >>= g).map k := by
  cases x with
  | ok a => exact later a
  | error failure => rfl

private theorem mapM_eq_map {f : α → Result γ} {g : α → Result β} {h : β → γ} {items : List α}
    (same : ∀ item ∈ items, f item = (g item).map h) :
    items.mapM f = (items.mapM g).map (List.map h) := by
  induction items with
  | nil => rfl
  | cons item rest ih =>
    rw [List.forall_mem_cons] at same
    rw [List.mapM_cons, List.mapM_cons, same.1, ih same.2]
    exact map_bind_eq_map fun first => map_bind_eq_map fun others => rfl

end Result

/-- A text has no attributes. -/
private theorem Context.resolve_of_str {context : Context} {path : Identifier} {text : String}
    (goesOn : path.attributes ≠ [])
    (found : context.find? path.name = some (.str text)) : context.resolve path = .null := by
  have nothing (attributes : List String) : attributes.foldl
      (fun (found : Option Value) name => found.bind (Value.attribute? name)) none = none := by
    induction attributes with
    | nil => rfl
    | cons first rest ih => exact ih
  rw [resolve, found]
  cases attributes : path.attributes with
  | nil => exact absurd attributes goesOn
  | cons first rest =>
    have noAttribute : (Value.str text).attribute? first = none := rfl
    rw [List.foldl_cons, Option.bind_some, noAttribute, nothing]
    rfl

/-- Two contexts that differ in one name, which has a text in the first one and stands for a
placeholder in the second one. The placeholder occurs in no other value. -/
structure Context.Filled (name filling : String) (placeholder : Char) (context blank : Context) :
    Prop where
  bound : context.find? name = some (.str filling)
  reserved : blank.find? name = some (.str placeholder.toString)
  same : ∀ other, other ≠ name → context.find? other = blank.find? other
  avoids : ∀ other, other ≠ name → ∀ value, blank.find? other = some value →
    value.Avoids placeholder

namespace Context.Filled

variable {name filling : String} {placeholder : Char} {context blank : Context}
  (filled : context.Filled name filling placeholder blank)
include filled

/-- A loop variable other than the name keeps the contexts as they are apart from it. -/
theorem insert {other : String} (differs : other ≠ name) {value : Value}
    (avoids : value.Avoids placeholder) :
    (context.insert other value).Filled name filling placeholder (blank.insert other value) where
  bound := by simp [Ne.symm differs, filled.bound]
  reserved := by simp [Ne.symm differs, filled.reserved]
  same := by
    intro wanted wantedDiffers
    simp [filled.same wanted wantedDiffers]
  avoids := by
    intro wanted wantedDiffers found isFound
    rw [find?_insert] at isFound
    split at isFound
    · cases isFound
      exact avoids
    · exact filled.avoids wanted wantedDiffers found isFound

private theorem resolve_eq {path : Identifier} (differs : path ≠ ⟨name, []⟩) :
    context.resolve path = blank.resolve path ∧ (blank.resolve path).Avoids placeholder := by
  obtain ⟨first, attributes⟩ := path
  by_cases sameName : first = name
  · subst sameName
    have goesOn : attributes ≠ [] := by
      rintro rfl
      exact differs rfl
    rw [resolve_of_str goesOn filled.bound, resolve_of_str goesOn filled.reserved]
    exact ⟨rfl, trivial⟩
  · refine ⟨?_, avoids_resolve (filled.avoids first sameName)⟩
    rw [resolve, resolve, filled.same first sameName]

variable {expression : Expression} (absent : ⟨name, []⟩ ∉ expression.paths)
include absent

/-- An expression that does not mention the name has the same value in both contexts. -/
theorem evaluate_eq : expression.evaluate context = expression.evaluate blank := by
  refine Expression.evaluate_congr fun path member => (filled.resolve_eq ?_).1
  rintro rfl
  exact absent member

private theorem avoids_of_evaluate {value : Value}
    (avoid : ∀ token ∈ expression, token.Avoids placeholder)
    (computed : expression.evaluate blank = .ok value) : value.Avoids placeholder := by
  refine Expression.avoids_of_evaluate avoid (fun path member => (filled.resolve_eq ?_).2) computed
  rintro rfl
  exact absent member

end Context.Filled

namespace Engine

/-- Whether an expression is a name and nothing else. -/
def readsAs (engine : Engine) (name text : String) : Bool :=
  match engine.read text with
  | .ok [.identifier path] => path == ⟨name, []⟩
  | _ => false

/-- Whether a name occurs in an expression. -/
def mentions (engine : Engine) (name text : String) : Bool :=
  match engine.read text with
  | .ok expression => expression.paths.contains ⟨name, []⟩
  | .error _ => false

/-- A template in which a name occurs only as the whole expression of substitutions, or of the tag
that these stand for. -/
def OnlyInserts (engine : Engine) (name source : String) : Prop :=
  ∀ mark ∈ Template.marks source.toList,
    mark.name = Mark.substitutionTag ∧ engine.readsAs name mark.arguments = true ∨
      engine.mentions name mark.arguments = false

instance (engine : Engine) (name source : String) : Decidable (engine.OnlyInserts name source) :=
  inferInstanceAs (Decidable (∀ mark ∈ Template.marks source.toList, _ ∨ _))

/-- A template that only inserts a name and in which the placeholder does not occur. -/
structure Fits (engine : Engine) (name : String) (placeholder : Char) (source : String) : Prop where
  onlyInserts : engine.OnlyInserts name source
  absent : placeholder ∉ source.toList

/-- A section of a standard block that does not mention the name and whose body fits. -/
structure FitsSection (engine : Engine) (name : String) (placeholder : Char) (part : Section) :
    Prop where
  standard : part.handler = StandardTag.conditional ∨ part.handler = StandardTag.forLoop
  unmentioned : engine.mentions name part.arguments = false
  absent : placeholder ∉ part.arguments.toList
  body (deeper : String → Context → Result String) :
    engine.Fits name placeholder (engine.sectionBody deeper part.body).text

private theorem not_mem_paths {engine : Engine} {name text : String} {expression : Expression}
    (unmentioned : engine.mentions name text = false) (read : engine.read text = .ok expression) :
    ⟨name, []⟩ ∉ expression.paths := by
  simp only [mentions, read] at unmentioned
  simpa using unmentioned

private theorem eq_identifier_of_readsAs {engine : Engine} {name text : String}
    {expression : Expression}
    (readsAs : engine.readsAs name text = true) (read : engine.read text = .ok expression) :
    expression = [.identifier ⟨name, []⟩] := by
  simp only [Engine.readsAs, read] at readsAs
  split at readsAs
  · next path same =>
    cases same
    rw [beq_iff_eq] at readsAs
    rw [readsAs]
  · cases readsAs

/-- The sections of a template that fits fit in turn. -/
theorem Fits.fitsSection {engine : Engine} {name source : String} {placeholder : Char}
    {part : Section} (fits : engine.Fits name placeholder source)
    (standard : engine.tags = StandardTag.all)
    (isSection : Template.IsSectionOf engine.tags (Template.pieces source.toList) part) :
    engine.FitsSection name placeholder part := by
  obtain ⟨mark, member, sameName, sameArguments⟩ := isSection.exists_mark
  have starts := isSection.startsSection
  rw [standard] at starts
  have noSubstitution : mark.name ≠ Mark.substitutionTag := by
    intro isParse
    rw [sameName] at isParse
    rw [isParse] at starts
    rcases StandardTag.startsSection_all starts with ⟨isConditional, -⟩ | ⟨isFor, -⟩
    · exact absurd isConditional (by decide)
    · exact absurd isFor (by decide)
  have unmentioned : engine.mentions name part.arguments = false := by
    rw [← sameArguments]
    exact (fits.onlyInserts mark member).resolve_left fun inserts => noSubstitution inserts.1
  have absent : placeholder ∉ part.arguments.toList := fun inside =>
    fits.absent (isSection.arguments_infix.subset inside)
  have whole : engine.Fits name placeholder part.body :=
    ⟨fun found inside => fits.onlyInserts found (isSection.marks_body_subset inside),
      fun inside => fits.absent (isSection.body_infix.subset inside)⟩
  have trimmed : engine.Fits name placeholder (String.ofList (Text.trim part.body.toList)) := by
    constructor
    · rw [OnlyInserts, String.toList_ofList, Template.marks_trim]
      exact whole.onlyInserts
    · rw [String.toList_ofList]
      exact fun inside => whole.absent ((Text.trim_infix _).subset inside)
  refine ⟨isSection.eq_of_standard standard, unmentioned, absent, fun deeper => ?_⟩
  rw [sectionBody]
  split
  · exact trimmed
  · exact whole

end Engine

section Rendering

variable {engine : Engine} {name filling : String} {placeholder : Char}
  {deeper blankDeeper : String → Context → Result String} {context blank : Context}
  {tag : String} {expression : Expression}

/-- Renderings of the templates that fit, in contexts that differ in the name: the first answer is
the second one with the placeholder replaced. -/
def RendersFilled (engine : Engine) (name filling : String) (placeholder : Char)
    (deeper blankDeeper : String → Context → Result String) : Prop :=
  ∀ source context blank, engine.Fits name placeholder source →
    context.Filled name filling placeholder blank →
    deeper source context = (blankDeeper source blank).map (Text.fill placeholder filling)

namespace StandardTag

private theorem parse_filled_of_absent (foreign : 128 ≤ placeholder.toNat)
    (filled : context.Filled name filling placeholder blank)
    (absent : ⟨name, []⟩ ∉ expression.paths)
    (avoid : ∀ token ∈ expression, token.Avoids placeholder)
    (load : String → Result (Option String)) :
    parse ⟨tag, expression, context, deeper, load⟩ =
      (parse ⟨tag, expression, blank, blankDeeper, load⟩).map (Text.fill placeholder filling) := by
  rw [parse, parse]
  split
  · rfl
  · simp only [TagCall.evaluate, filled.evaluate_eq absent]
    refine Result.bind_eq_map fun value computed => ?_
    have avoids := filled.avoids_of_evaluate absent avoid computed
    have kept : Text.fill placeholder filling value.toText = value.toText :=
      Text.fill_of_not_mem (Value.not_mem_toText foreign value avoids)
    exact congrArg Except.ok kept.symm

private theorem parse_filled_of_inserted (filled : context.Filled name filling placeholder blank)
    (load : String → Result (Option String)) :
    parse ⟨tag, [.identifier ⟨name, []⟩], context, deeper, load⟩ =
      (parse ⟨tag, [.identifier ⟨name, []⟩], blank, blankDeeper, load⟩).map
        (Text.fill placeholder filling) := by
  have evaluates (scope : Context) : Expression.evaluate scope [.identifier ⟨name, []⟩] =
      .ok ((scope.find? name).getD .null) := rfl
  have written (scope : Context) (text : String) (found : scope.find? name = some (.str text))
      (render : String → Context → Result String) :
      parse ⟨tag, [.identifier ⟨name, []⟩], scope, render, load⟩ = .ok text := by
    rw [parse, TagCall.evaluate, evaluates, found]
    rfl
  rw [written context filling filled.bound, written blank _ filled.reserved]
  exact congrArg Except.ok Text.fill_placeholder.symm

variable (renders : RendersFilled engine name filling placeholder deeper blankDeeper)
  (filled : context.Filled name filling placeholder blank)
  (absent : ⟨name, []⟩ ∉ expression.paths)
include renders filled absent

private theorem includeTemplate_filled {load : String → Result (Option String)}
    (library : ∀ template source, load template = .ok (some source) →
      engine.Fits name placeholder source) :
    includeTemplate ⟨tag, expression, context, deeper, load⟩ =
      (includeTemplate ⟨tag, expression, blank, blankDeeper, load⟩).map
        (Text.fill placeholder filling) := by
  refine Result.bind_eq_map fun _ _ => ?_
  simp only [TagCall.evaluate, filled.evaluate_eq absent]
  refine Result.bind_eq_map fun value _ => ?_
  cases value with
  | str template =>
    refine Result.bind_eq_map fun found loaded => ?_
    cases found with
    | none => rfl
    | some source => exact renders source context blank (library template source loaded) filled
  | null | bool | int | float | list | map => rfl

variable {text : String} (fits : engine.Fits name placeholder text)
include fits

private theorem conditional_filled (load : String → Result (Option String)) :
    conditional ⟨tag, expression, context, deeper, load⟩ ⟨text, deeper⟩ =
      (conditional ⟨tag, expression, blank, blankDeeper, load⟩ ⟨text, blankDeeper⟩).map
        (Option.map (Text.fill placeholder filling)) := by
  have body : deeper text context =
      (blankDeeper text blank).map (Text.fill placeholder filling) :=
    renders text context blank fits filled
  simp only [conditional, TagCall.evaluate, SectionBody.render, filled.evaluate_eq absent, body]
  split
  · refine Result.bind_eq_map fun value _ => ?_
    split
    · exact Result.map_bind_eq_map fun output => rfl
    · exact Result.map_bind_eq_map fun output => rfl
    · rfl
  · split
    · exact Result.bind_eq_map fun _ _ => Result.map_bind_eq_map fun output => rfl
    · rfl

private theorem forLoop_filled (avoid : ∀ token ∈ expression, token.Avoids placeholder)
    (load : String → Result (Option String)) :
    forLoop ⟨tag, expression, context, deeper, load⟩ ⟨text, deeper⟩ =
      (forLoop ⟨tag, expression, blank, blankDeeper, load⟩ ⟨text, blankDeeper⟩).map
        (Option.map (Text.fill placeholder filling)) := by
  simp only [forLoop]
  split
  · next variableToken keyword iterated =>
    refine Result.bind_eq_map fun variableName isVariable => Result.bind_eq_map fun _ _ => ?_
    have differs : variableName ≠ name := by
      rintro rfl
      unfold loopVariable at isVariable
      split at isVariable
      · cases isVariable
        exact absent (List.mem_append_left _ List.mem_cons_self)
      · cases isVariable
    have laterAbsent : ⟨name, []⟩ ∉ Expression.paths [iterated] := fun inside =>
      absent (List.mem_append_right _ (List.mem_append_right _ inside))
    rw [filled.evaluate_eq laterAbsent]
    refine Result.bind_eq_map fun value computed => Result.bind_eq_map fun elements isElements => ?_
    have avoids : value.Avoids placeholder :=
      filled.avoids_of_evaluate laterAbsent (by simpa using avoid iterated (by simp)) computed
    have isFound : value.elements? = some elements := by
      rw [loopElements] at isElements
      split at isElements
      · next found same =>
        cases isElements
        exact same
      · cases isElements
    have parts : (elements.mapM fun element => deeper text (context.insert variableName element)) =
        (elements.mapM fun element => blankDeeper text (blank.insert variableName element)).map
          (List.map (Text.fill placeholder filling)) :=
      Result.mapM_eq_map fun element member => renders _ _ _ fits
        (filled.insert differs (Value.avoids_of_elements? avoids isFound element member))
    simp only [SectionBody.render]
    rw [parts]
    exact Result.map_bind_eq_map fun outputs =>
      congrArg (fun joined => Except.ok (some joined)) (Text.fill_join outputs).symm
  · exact Result.bind_eq_map fun _ _ => rfl

end StandardTag

namespace Engine

variable (renders : RendersFilled engine name filling placeholder deeper blankDeeper)
  (filled : context.Filled name filling placeholder blank)
include renders filled

private theorem renderSections_filled {sections : List Section}
    (fits : ∀ part ∈ sections, engine.FitsSection name placeholder part) :
    engine.renderSections deeper context sections =
      (engine.renderSections blankDeeper blank sections).map (Text.fill placeholder filling) := by
  induction sections with
  | nil => rfl
  | cons part rest ih =>
    rw [List.forall_mem_cons] at fits
    simp only [renderSections, call, bind_assoc, pure_bind]
    refine Result.bind_eq_map fun tokens read => ?_
    have absent := not_mem_paths fits.1.unmentioned read
    have avoid := Expression.avoid_of_read fits.1.absent read
    have handled : part.handler ⟨part.name, tokens, context, deeper, engine.load⟩
          (engine.sectionBody deeper part.body) =
        (part.handler ⟨part.name, tokens, blank, blankDeeper, engine.load⟩
          (engine.sectionBody blankDeeper part.body)).map
            (Option.map (Text.fill placeholder filling)) := by
      rcases fits.1.standard with isConditional | isLoop
      · rw [isConditional]
        exact StandardTag.conditional_filled renders filled absent (fits.1.body deeper) engine.load
      · rw [isLoop]
        exact StandardTag.forLoop_filled renders filled absent (fits.1.body deeper) avoid
          engine.load
    rw [handled]
    refine Result.map_bind_eq_map fun found => ?_
    cases found with
    | some output => rfl
    | none => exact ih fits.2

variable (foreign : 128 ≤ placeholder.toNat) (standard : engine.tags = StandardTag.all)
  (library : ∀ template source, engine.load template = .ok (some source) →
    engine.Fits name placeholder source)
  {source : String} (fits : engine.Fits name placeholder source)
include foreign standard library fits

private theorem renderNode_filled {node : Template.Node}
    (isOf : node.IsOf engine.tags (Template.pieces source.toList)) :
    engine.renderNode deeper context node =
      (engine.renderNode blankDeeper blank node).map (Text.fill placeholder filling) := by
  cases node with
  | text content =>
    have absent : placeholder ∉ content.toList := by
      intro inside
      apply fits.absent
      rw [← Template.source_pieces source.toList]
      exact List.mem_flatMap.mpr ⟨_, isOf, inside⟩
    exact congrArg Except.ok (Text.fill_of_not_mem absent).symm
  | inline tag arguments handler =>
    -- only `parse` may stand in a mark that mentions the name, and then the name is all it writes
    obtain ⟨found, mark, member, rfl, rfl⟩ := isOf
    have listed := Template.mem_marks member
    simp only [renderNode, call, bind_assoc, pure_bind]
    refine Result.bind_eq_map fun tokens read => ?_
    have avoid := Expression.avoid_of_read (fun inside => fits.absent
      ((Template.arguments_infix_of_mem_marks listed).subset inside)) read
    rw [standard] at found
    rcases StandardTag.eq_of_find?_all_inline found with ⟨-, rfl⟩ | ⟨isInclude, rfl⟩
    · rcases fits.onlyInserts _ listed with ⟨-, readsAs⟩ | unmentioned
      · rw [eq_identifier_of_readsAs readsAs read]
        exact StandardTag.parse_filled_of_inserted filled engine.load
      · exact StandardTag.parse_filled_of_absent foreign filled
          (not_mem_paths unmentioned read) avoid engine.load
    · rcases fits.onlyInserts _ listed with ⟨isParse, -⟩ | unmentioned
      · have both : "include" = Mark.substitutionTag := isInclude.symm.trans isParse
        exact absurd both (by decide)
      · exact StandardTag.includeTemplate_filled renders filled
          (not_mem_paths unmentioned read) library
  | block sections =>
    exact renderSections_filled renders filled fun part member =>
      fits.fitsSection standard (isOf part member)

private theorem renderOutline_filled :
    engine.renderOutline deeper context (Template.outline engine.tags source) =
      (engine.renderOutline blankDeeper blank (Template.outline engine.tags source)).map
        (Text.fill placeholder filling) := by
  have nodes := Result.mapM_eq_map fun node member =>
    renderNode_filled renders filled foreign standard library fits
      (Template.isOf_of_mem_outline node member)
  rw [renderOutline, renderOutline, nodes]
  refine Result.map_bind_eq_map fun parts => ?_
  split
  · rfl
  · exact congrArg Except.ok (Text.fill_join parts).symm

end Engine

end Rendering

namespace Engine

/-- At every depth a template that only inserts a name renders as it does with the placeholder in
place of the name, the placeholder replaced. -/
theorem renderWithin_filled {engine : Engine} {name filling : String} {placeholder : Char}
    (foreign : 128 ≤ placeholder.toNat) (standard : engine.tags = StandardTag.all)
    (library : ∀ template source, engine.load template = .ok (some source) →
      engine.Fits name placeholder source) (levels : Nat) :
    RendersFilled engine name filling placeholder (engine.renderWithin levels)
      (engine.renderWithin levels) := by
  induction levels with
  | zero => exact fun _ _ _ _ _ => rfl
  | succ levels ih =>
    intro source context blank fits filled
    rw [renderWithin, renderWithin]
    exact renderOutline_filled ih filled foreign standard library fits

end Engine

/-- A context in whose values a character does not occur. -/
def Context.Avoids (c : Char) (context : Context) : Prop :=
  ∀ name value, context.find? name = some value → value.Avoids c

private theorem Context.Avoids.filled {placeholder : Char} {context : Context}
    (avoids : context.Avoids placeholder) (name filling : String) :
    (context.insert name (.str filling)).Filled name filling placeholder
      (context.insert name (.str placeholder.toString)) where
  bound := by simp
  reserved := by simp
  same := by
    intro other differs
    simp [differs]
  avoids := by
    intro other differs value found
    rw [find?_insert, if_neg differs] at found
    exact avoids other value found

/-- What a text holds does not matter to the rendering of a template that inserts it: the output
is the one for a placeholder, with the text in the place of the placeholder. -/
theorem Engine.renderSource_insert {engine : Engine} {name source : String} {placeholder : Char}
    {context : Context} (standard : engine.tags = StandardTag.all) (noLoader : engine.loader = none)
    (foreign : 128 ≤ placeholder.toNat) (fits : engine.Fits name placeholder source)
    (library : ∀ template text, engine.templates.find? template = some text →
      engine.Fits name placeholder text)
    (avoids : context.Avoids placeholder) (filling : String) :
    engine.renderSource source (context.insert name (.str filling)) =
      (engine.renderSource source (context.insert name (.str placeholder.toString))).map
        (Text.fill placeholder filling) := by
  have loads : ∀ template text, engine.load template = .ok (some text) →
      engine.Fits name placeholder text := by
    intro template text loaded
    rw [load_of_noLoader noLoader] at loaded
    exact library template text (Except.ok.inj loaded)
  exact renderWithin_filled foreign standard loads _ source _ _ fits
    (avoids.filled name filling)

/-- A context keeps to the other characters when a value without the character is bound. -/
theorem Context.Avoids.insert {c : Char} {context : Context} (avoids : context.Avoids c)
    {name : String} {value : Value} (valueAvoids : value.Avoids c) :
    (context.insert name value).Avoids c := by
  intro other found isFound
  rw [find?_insert] at isFound
  split at isFound
  · cases isFound
    exact valueAvoids
  · exact avoids other found isFound

/-- An engine with a template that inserts `x`. -/
def rowEngine : Engine :=
  { templates := ⟨Table.empty.insert "row" "<{{ x }}>"⟩ }

/-- A template that inserts `x` in a loop inside a conditional, and in an included template. -/
def rowSource : String :=
  "{% if True %}{% for i in s %}{% include row %}{{ i }}{{ x }}{% endfor %}{% endif %}"

def rowContext : Context :=
  Context.insert { } "s" (.list [.int 1, .str "x"]) |>.insert "row" (.str "row")

theorem Engine.renderSource_insert_row :
    rowEngine.tags = StandardTag.all ∧ rowEngine.loader = none ∧ 128 ≤ '…'.toNat ∧
      rowEngine.Fits "x" '…' rowSource ∧
      (∀ template text, rowEngine.templates.find? template = some text →
        rowEngine.Fits "x" '…' text) ∧
      rowContext.Avoids '…' ∧
      rowEngine.renderSource rowSource (rowContext.insert "x" (.str "{% endif %}{{ i }}\x7b%")) =
        .ok ("<{% endif %}{{ i }}\x7b%>1{% endif %}{{ i }}\x7b%" ++
          "<{% endif %}{{ i }}\x7b%>x{% endif %}{{ i }}\x7b%") := by
  have foreign : 128 ≤ '…'.toNat := by decide
  have fits : rowEngine.Fits "x" '…' rowSource := ⟨by decide +kernel, by decide +kernel⟩
  have library : ∀ template text, rowEngine.templates.find? template = some text →
      rowEngine.Fits "x" '…' text := by
    intro template text found
    rw [rowEngine, TemplateStore.find?, Table.find?_insert] at found
    split at found
    · cases found
      exact ⟨by decide +kernel, by decide +kernel⟩
    · cases found
  have empty : Context.Avoids '…' { } :=
    fun _ _ found => absurd found.symm (Option.some_ne_none _)
  have avoids : rowContext.Avoids '…' :=
    (empty.insert (Value.avoids_list.mpr (by simp [Value.Avoids]))).insert
      (by simp [Value.Avoids])
  have blank : rowEngine.renderSource rowSource
      (rowContext.insert "x" (.str '…'.toString)) = .ok "<…>1…<…>x…" := by
    decide +kernel
  refine ⟨rfl, rfl, foreign, fits, library, avoids, ?_⟩
  rw [renderSource_insert rfl rfl foreign fits library avoids, blank]
  decide +kernel

end Stencil
