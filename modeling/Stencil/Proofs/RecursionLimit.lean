import Stencil.Engine
import Stencil.Proofs.OutlineParts
import Stencil.Proofs.Result

/-! # The recursion limit

The limit on nested rendering only ever cuts rendering off. Two engines that differ in their limits
render a text alike, unless the limit of the first one is exceeded:
`Engine.renderSource_withLimit_of_le`. The reason is that no handler of a standard tag looks at a
failure of what it renders; it hands the failure on. `Engine.renderWithin_upToLimit` holds for every
registry of handlers that respect the limit in this way.
-/

namespace Stencil

/-- Whether a failure is that of the recursion limit. -/
def Error.isRecursionLimit : Error → Bool
  | .recursionLimit _ => true
  | _ => false

namespace Result

variable {strict : Bool} {α β : Type}

/-- Two answers that are the same, unless the first one exceeds the recursion limit. If the
relation is strict, the second one then exceeds its own limit. -/
inductive UpToLimit (strict : Bool) : Result α → Result α → Prop
  | exceeded {limit : Nat} {second : Result α}
    (also : strict = true → ∃ other, second = .error (.recursionLimit other)) :
    UpToLimit strict (.error (.recursionLimit limit)) second
  | same (answer : Result α) : UpToLimit strict answer answer

theorem UpToLimit.bind {first second : Result α} {f g : α → Result β}
    (answers : UpToLimit strict first second) (rest : ∀ a, UpToLimit strict (f a) (g a)) :
    UpToLimit strict (first >>= f) (second >>= g) := by
  cases answers with
  | exceeded also =>
    refine .exceeded fun isStrict => ?_
    obtain ⟨other, rfl⟩ := also isStrict
    exact ⟨other, rfl⟩
  | same =>
    cases first with
    | error failure => exact .same _
    | ok a => exact rest a

private theorem UpToLimit.mapM {f g : α → Result β} {items : List α}
    (answers : ∀ item ∈ items, UpToLimit strict (f item) (g item)) :
    UpToLimit strict (items.mapM f) (items.mapM g) := by
  induction items with
  | nil => exact .same _
  | cons item rest ih =>
    rw [List.forall_mem_cons] at answers
    rw [List.mapM_cons, List.mapM_cons]
    exact answers.1.bind fun first => (ih answers.2).bind fun others => .same _

theorem UpToLimit.ok_of_ok {first second : Result α} (answers : UpToLimit strict first second)
    {a : α} (isOk : first = .ok a) : second = .ok a := by
  cases answers with
  | exceeded also => cases isOk
  | same => exact isOk

private theorem UpToLimit.error_of_error {first second : Result α}
    (answers : UpToLimit strict first second) {failure : Error} (isError : first = .error failure)
    (notLimit : failure.isRecursionLimit = false) : second = .error failure := by
  cases answers with
  | exceeded also =>
    cases isError
    cases notLimit
  | same => exact isError

end Result

open Result

/-- A handler that does not look at failures of the recursion limit: if all renderings that it may
ask for answer as before up to the limit, then so does the handler. -/
def InlineHandler.RespectsLimit (strict : Bool) (handler : InlineHandler) : Prop :=
  ∀ (call : TagCall) (other : String → Context → Result String),
    (∀ source context, UpToLimit strict (call.renderDeeper source context) (other source context)) →
    UpToLimit strict (handler call) (handler { call with renderDeeper := other })

@[inherit_doc InlineHandler.RespectsLimit]
def SectionHandler.RespectsLimit (strict : Bool) (handler : SectionHandler) : Prop :=
  ∀ (call : TagCall) (text : String) (other : String → Context → Result String),
    (∀ source context, UpToLimit strict (call.renderDeeper source context) (other source context)) →
    UpToLimit strict (handler call ⟨text, call.renderDeeper⟩)
      (handler { call with renderDeeper := other } ⟨text, other⟩)

/-- A tag all of whose handlers respect the limit. -/
def Tag.RespectsLimit (strict : Bool) : Tag → Prop
  | .inline handler => InlineHandler.RespectsLimit strict handler
  | .block definition => SectionHandler.RespectsLimit strict definition.handler ∧
    ∀ subTag ∈ definition.subTags, ∀ handler ∈ subTag.handler,
      SectionHandler.RespectsLimit strict handler

/-- A registry of such tags. -/
def TagRegistry.RespectsLimit (strict : Bool) (tags : TagRegistry) : Prop :=
  ∀ name tag, tags.find? name = some tag → tag.RespectsLimit strict

variable {strict : Bool}

private theorem TagRegistry.RespectsLimit.startsSection {tags : TagRegistry}
    (respects : tags.RespectsLimit strict) {name : String} {handler : SectionHandler}
    (starts : tags.StartsSection name handler) :
    SectionHandler.RespectsLimit strict handler := by
  obtain ⟨opener, block, found, start⟩ := starts
  obtain ⟨ofBlock, ofSubTags⟩ := respects opener _ found
  rcases start with ⟨-, rfl⟩ | ⟨subTag, member, -, rfl⟩
  · exact ofBlock
  · cases own : subTag.handler with
    | none => exact ofBlock
    | some handler => exact ofSubTags subTag member handler own

namespace StandardTag

private theorem respectsLimit_includeTemplate :
    InlineHandler.RespectsLimit strict includeTemplate := by
  intro call other agree
  refine UpToLimit.bind (.same _) fun _ => UpToLimit.bind (.same _) fun value => ?_
  cases value with
  | str name =>
    refine UpToLimit.bind (.same _) fun found => ?_
    cases found with
    | none => exact .same _
    | some source => exact agree source call.context
  | null | bool | int | float | list | map => exact .same _

private theorem respectsLimit_conditional : SectionHandler.RespectsLimit strict conditional := by
  intro call text other agree
  rw [conditional, conditional]
  split
  · refine UpToLimit.bind (.same _) fun value => ?_
    split
    · exact (agree text call.context).bind fun output => .same _
    · exact (agree text call.context).bind fun output => .same _
    · exact .same _
  · split
    · exact UpToLimit.bind (.same _) fun _ => (agree text call.context).bind fun output => .same _
    · exact .same _

private theorem respectsLimit_forLoop : SectionHandler.RespectsLimit strict forLoop := by
  rintro ⟨_, arguments, context, deeper, _⟩ text other agree
  simp only [forLoop]
  split
  · refine UpToLimit.bind (.same _) fun name => UpToLimit.bind (.same _) fun _ =>
      UpToLimit.bind (.same _) fun value => UpToLimit.bind (.same _) fun elements => ?_
    refine UpToLimit.bind ?_ fun parts => .same _
    exact UpToLimit.mapM fun element _ => agree text (context.insert name element)
  · exact .same _

theorem respectsLimit_all : all.RespectsLimit strict := by
  intro name tag found
  rcases eq_of_find?_all found with ⟨-, rfl⟩ | ⟨-, rfl⟩ | ⟨-, rfl⟩ | ⟨-, rfl⟩
  · exact ⟨respectsLimit_forLoop, List.forall_mem_nil _⟩
  · refine ⟨respectsLimit_conditional, fun subTag member handler own => ?_⟩
    rw [conditionalBlock, List.mem_cons, List.mem_singleton] at member
    rcases member with rfl | rfl <;> cases own
  · exact fun _ _ _ => .same _
  · exact respectsLimit_includeTemplate

end StandardTag

namespace Engine

/-- The engine with another recursion limit. -/
def withLimit (engine : Engine) (limit : Nat) : Engine :=
  { engine with options.recursionLimit := limit }

/-- The limit only stands in the failure. -/
@[simp] theorem renderSections_withLimit (engine : Engine) (limit : Nat)
    (deeper : String → Context → Result String) (context : Context) (sections : List Section) :
    (engine.withLimit limit).renderSections deeper context sections =
      engine.renderSections deeper context sections := by
  induction sections with
  | nil => rfl
  | cons head rest ih =>
    rw [renderSections, renderSections, ih]
    rfl

@[simp] theorem renderOutline_withLimit (engine : Engine) (limit : Nat)
    (deeper : String → Context → Result String) (context : Context) :
    (engine.withLimit limit).renderOutline deeper context =
      engine.renderOutline deeper context := by
  have sameNode : (engine.withLimit limit).renderNode deeper context =
      engine.renderNode deeper context := by
    funext node
    cases node with
    | text | inline => rfl
    | block sections => exact renderSections_withLimit engine limit deeper context sections
  funext outline
  rw [renderOutline, renderOutline, sameNode]

section Deeper

variable {engine : Engine} {deeper other : String → Context → Result String}
  (agree : ∀ source context, UpToLimit strict (deeper source context) (other source context))
  (respects : engine.tags.RespectsLimit strict) (context : Context)

include agree

private theorem renderSections_upToLimit (sections : List Section)
    (handlers : ∀ part ∈ sections, SectionHandler.RespectsLimit strict part.handler) :
    UpToLimit strict (engine.renderSections deeper context sections)
      (engine.renderSections other context sections) := by
  induction sections with
  | nil => exact .same _
  | cons head rest ih =>
    rw [List.forall_mem_cons] at handlers
    simp only [renderSections, call, bind_assoc, pure_bind]
    refine UpToLimit.bind (.same _) fun tokens => ?_
    refine (handlers.1 ⟨head.name, tokens, context, deeper, engine.load⟩ _ other agree).bind ?_
    intro found
    cases found with
    | some output => exact .same _
    | none => exact ih handlers.2

include respects

private theorem renderNode_upToLimit {pieces : List Template.Piece} {node : Template.Node}
    (isOf : node.IsOf engine.tags pieces) :
    UpToLimit strict (engine.renderNode deeper context node)
      (engine.renderNode other context node) := by
  cases node with
  | text content => exact .same _
  | inline name arguments handler =>
    have handled : InlineHandler.RespectsLimit strict handler := respects name _ isOf.1
    simp only [renderNode, call, bind_assoc, pure_bind]
    exact UpToLimit.bind (.same _) fun tokens =>
      handled ⟨name, tokens, context, deeper, engine.load⟩ other agree
  | block sections =>
    refine renderSections_upToLimit agree context sections fun part member => ?_
    exact respects.startsSection (isOf part member).startsSection

private theorem renderOutline_upToLimit (source : String) :
    UpToLimit strict (engine.renderOutline deeper context (Template.outline engine.tags source))
      (engine.renderOutline other context (Template.outline engine.tags source)) := by
  refine UpToLimit.bind (UpToLimit.mapM fun node member => ?_) fun parts => .same _
  exact renderNode_upToLimit agree respects context (Template.isOf_of_mem_outline node member)

end Deeper

/-- More levels and another limit do not change what is rendered, unless the first limit is
exceeded. With as many levels, both limits are exceeded or none is. -/
theorem renderWithin_upToLimit {engine : Engine} (respects : engine.tags.RespectsLimit strict)
    {levels more : Nat} (le : levels ≤ more) (sameLevels : strict = true → levels = more)
    (limit other : Nat) (source : String) (context : Context) :
    UpToLimit strict ((engine.withLimit limit).renderWithin levels source context)
      ((engine.withLimit other).renderWithin more source context) := by
  induction levels generalizing more source context with
  | zero =>
    -- the first limit is exceeded at once, whatever the second rendering does
    refine .exceeded fun isStrict => ?_
    obtain rfl := sameLevels isStrict
    exact ⟨other, rfl⟩
  | succ levels ih =>
    cases more with
    | zero => cases le
    | succ more =>
      rw [renderWithin, renderWithin, renderOutline_withLimit, renderOutline_withLimit]
      exact renderOutline_upToLimit (ih (Nat.le_of_succ_le_succ le)
        fun isStrict => Nat.succ.inj (sameLevels isStrict)) respects context source

/-- A larger recursion limit changes no text and no failure other than that of the limit. -/
theorem renderSource_withLimit_of_le {engine : Engine} (standard : engine.tags = StandardTag.all)
    {limit larger : Nat} (le : limit ≤ larger) (source : String) (context : Context) :
    (∀ text, (engine.withLimit limit).renderSource source context = .ok text →
      (engine.withLimit larger).renderSource source context = .ok text) ∧
    (∀ failure, (engine.withLimit limit).renderSource source context = .error failure →
      failure.isRecursionLimit = false →
      (engine.withLimit larger).renderSource source context = .error failure) := by
  have respects : engine.tags.RespectsLimit false := by
    rw [standard]
    exact StandardTag.respectsLimit_all
  have answers := renderWithin_upToLimit respects (Nat.succ_le_succ le) nofun limit larger source
    context
  exact ⟨fun text rendered => answers.ok_of_ok rendered,
    fun failure failed notLimit => answers.error_of_error failed notLimit⟩

/-- An engine whose one template includes itself for each item of a nested list. -/
def treeEngine : Engine :=
  { templates := ⟨Table.empty.insert "tree"
      "({% for items in items %}{% include name %}{% endfor %})"⟩ }

/-- A list nested so deep that rendering it takes five levels. -/
def treeContext : Context :=
  Context.ofPairs [("items", .list [.list [], .list [.list []]]), ("name", .str "tree")]

theorem renderSource_withLimit_of_le_tree :
    treeEngine.tags = StandardTag.all ∧ 5 ≤ 7 ∧
      (treeEngine.withLimit 4).renderSource "{% include name %}" treeContext =
        .error (.recursionLimit 4) ∧
      (treeEngine.withLimit 5).renderSource "{% include name %}" treeContext =
        .ok "(()(()))" ∧
      (treeEngine.withLimit 7).renderSource "{% include name %}" treeContext =
        .ok "(()(()))" ∧
      (treeEngine.withLimit 5).renderSource "{% include name %}{% oops %}" treeContext =
        .error (.unknownTag "oops" 1 19) ∧
      (treeEngine.withLimit 7).renderSource "{% include name %}{% oops %}" treeContext =
        .error (.unknownTag "oops" 1 19) := by
  have five : 5 ≤ 7 := by decide
  have rendered : (treeEngine.withLimit 5).renderSource "{% include name %}" treeContext =
      .ok "(()(()))" := by decide +kernel
  have failed : (treeEngine.withLimit 5).renderSource "{% include name %}{% oops %}" treeContext =
      .error (.unknownTag "oops" 1 19) := by decide +kernel
  have standard : treeEngine.tags = StandardTag.all := rfl
  have texts := (renderSource_withLimit_of_le standard five "{% include name %}" treeContext).1
  have failures := (renderSource_withLimit_of_le standard five "{% include name %}{% oops %}"
    treeContext).2
  exact ⟨standard, five, by decide +kernel, rendered, texts _ rendered, failed,
    failures _ failed rfl⟩

end Engine

end Stencil
