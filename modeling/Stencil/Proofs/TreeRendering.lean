import Stencil.Engine
import Stencil.Proofs.Result
import Stencil.Proofs.TreeOutline

/-! # Rendering is the meaning of the tree

`Scene.render` says what a template tree means, by recursion on the tree: text is copied, a
substitution is the value of its expression, a conditional is its first section that applies, and
a loop repeats its body. An engine with the standard tags never sees a tree, but cuts flat text
into marks at every level. What it renders is the meaning of the tree that the text prints:
`Engine.renderSource_eq_render`.
-/

namespace Stencil

open Template

/-- What the meaning of a tree depends on: the delimiters of literals, the options, and the named
templates. -/
structure Scene where
  delimiters : Delimiters
  options : Options
  library : String → Option (List TreeNode)

namespace Scene

variable (scene : Scene)

/-- The expression in a mark. -/
def expression (chars : List Char) : Result Expression :=
  Expression.read scene.delimiters (argumentText chars)

/-- The body of a section, trimmed if the options say so. -/
def body (tree : List TreeNode) : List TreeNode :=
  if scene.options.stripBodies then TreeNode.trimAll tree else tree

/-- The text of the value of an expression. -/
def valueText (context : Context) (chars : List Char) : Result String := do
  match ← scene.expression chars with
  | [] => throw (.missingArguments "parse" 1 0)
  | tokens => return (← Expression.evaluate context tokens).toText

section Nested

variable (deeper : List TreeNode → Context → Result String) (context : Context)

/-- The text of a named template, which is empty if there is none. -/
def inclusionText (arguments : TagText) : Result String := do
  match ← scene.expression arguments.chars with
  | [] => throw (.missingArguments "include" 1 0)
  | [token] =>
    match ← Expression.evaluate context [token] with
    | .str name =>
      match scene.library name with
      | some tree => deeper tree context
      | none => return ""
    | other =>
      throw (.invalidArgument "include" ("expected a template name string, got " ++ other.typeName))
  | tokens => throw (.tooManyArguments "include" 1 tokens.length)

/-- The text of a section whose condition is true or has no value, or else what comes of the
sections behind it. -/
def sectionText (condition : TagText) (body : List TreeNode) (otherwise : Result String) :
    Result String := do
  match ← Expression.evaluate context (← scene.expression condition.chars) with
  | .bool true => deeper (scene.body body) context
  | .null => deeper (scene.body body) context
  | _ => otherwise

/-- The text of the first further section of a conditional that applies. -/
def branchesText : List TreeBranch → Result String
  | [] => .ok ""
  | .mk .elif condition body :: rest =>
    scene.sectionText deeper context condition body (branchesText rest)
  | .mk .otherwise arguments body :: _ => do
    match ← scene.expression arguments.chars with
    | [] => deeper (scene.body body) context
    | tokens => throw (.tooManyArguments "else" 0 tokens.length)

/-- The text of a loop with the given header: that of its body once for each element. -/
def repeatedText (body : List TreeNode) : Expression → Result String
  | [variableToken, keyword, iterated] =>
    match variableToken, keyword with
    | .identifier ⟨name, []⟩, .operator (.binary .contained) => do
      let value ← Expression.evaluate context [iterated]
      match value.elements? with
      | some elements =>
        let parts ← elements.mapM fun element =>
          deeper (scene.body body) (context.insert name element)
        return String.join parts
      | none => throw (.invalidArgument "for" (value.typeName ++ " is not iterable"))
    | .identifier ⟨_, []⟩, other =>
      .error (.invalidArgument "for" ("expected in, got " ++ other.toText))
    | other, _ =>
      .error (.invalidArgument "for" ("expected a loop variable name, got " ++ other.toText))
  | tokens =>
    if 3 < tokens.length then .error (.tooManyArguments "for" 3 tokens.length)
    else .error (.missingArguments "for" 3 tokens.length)

/-- The text of a part of a template. -/
def nodeText : TreeNode → Result String
  | .text content => .ok (String.ofList content.chars)
  | .substitution expression => scene.valueText context expression.chars
  | .parse arguments => scene.valueText context arguments.chars
  | .inclusion arguments => scene.inclusionText deeper context arguments
  | .conditional condition body branches =>
    scene.sectionText deeper context condition body (scene.branchesText deeper context branches)
  | .loop header body => do
    scene.repeatedText deeper context body (← scene.expression header.chars)

end Nested

/-- The text of a template with a number of levels left. -/
def renderWithin : Nat → List TreeNode → Context → Result String
  | 0, _, _ => .error (.recursionLimit scene.options.recursionLimit)
  | levels + 1, tree, context => do
    return String.join (← tree.mapM (scene.nodeText (renderWithin levels) context))

/-- The text of a template. -/
def render (tree : List TreeNode) (context : Context) : Result String :=
  scene.renderWithin (scene.options.recursionLimit + 1) tree context

end Scene

namespace Engine

/-- An engine with the standard tags and no loader, whose templates are printings of the trees of
a library. -/
structure IsStocked (engine : Engine) (library : String → Option (List TreeNode)) : Prop where
  tags : engine.tags = StandardTag.all
  noLoader : engine.loader = none
  stored : ∀ name source, engine.templates.find? name = some source →
    ∃ tree, library name = some tree ∧ PrintsAll tree source.toList
  missing : ∀ name, engine.templates.find? name = none → library name = none

/-- The scene of an engine whose templates are those of a library. -/
def scene (engine : Engine) (library : String → Option (List TreeNode)) : Scene :=
  ⟨engine.delimiters, engine.options, library⟩

section Outline

variable (engine : Engine) (deeper : String → Context → Result String) (context : Context)

theorem renderOutline_prepend (node : Node) (outline : Outline) :
    engine.renderOutline deeper context (outline.prepend node) = do
      let text ← engine.renderNode deeper context node
      let rest ← engine.renderOutline deeper context outline
      return text ++ rest := by
  simp only [renderOutline, Outline.prepend, List.mapM_cons]
  cases engine.renderNode deeper context node with
  | error failure => rfl
  | ok text =>
    cases outline.nodes.mapM (engine.renderNode deeper context) with
    | error failure => rfl
    | ok parts =>
      cases outline.failure with
      | some failure => rfl
      | none => exact congrArg Except.ok String.join_cons

theorem renderOutline_text (text : String) (outline : Outline) :
    engine.renderOutline deeper context (outline.prepend (.text text)) = do
      let rest ← engine.renderOutline deeper context outline
      return text ++ rest :=
  renderOutline_prepend engine deeper context (.text text) outline

/-- A character in front of the pieces is a character in front of what they render to. -/
theorem renderOutline_consText {tags : TagRegistry} (c : Char) (rest : List Piece) :
    engine.renderOutline deeper context (outlineFrom tags none (consText c rest)) = do
      let text ← engine.renderOutline deeper context (outlineFrom tags none rest)
      return String.singleton c ++ text := by
  rw [consText.eq_def]
  split
  · next chars others =>
    rw [outlineFrom, outlineFrom, renderOutline_text, renderOutline_text]
    cases engine.renderOutline deeper context (outlineFrom tags none others) with
    | error failure => rfl
    | ok text =>
      have same : String.ofList (c :: chars) ++ text =
          String.singleton c ++ (String.ofList chars ++ text) := by
        rw [← String.toList_inj]
        simp
      exact congrArg Except.ok same
  · rw [outlineFrom, renderOutline_text]
    rfl

/-- Text in which no mark can start is copied. -/
theorem renderOutline_plain {tags : TagRegistry} {chars : List Char} (plain : '\x7b' ∉ chars)
    (position : Position) (rest : List Char) :
    engine.renderOutline deeper context
        (outlineFrom tags none (piecesFrom position (chars ++ rest))) = do
      let text ← engine.renderOutline deeper context
        (outlineFrom tags none (piecesFrom (position.advanceBy chars) rest))
      return String.ofList chars ++ text := by
  induction chars generalizing position with
  | nil =>
    have same (text : String) : String.ofList [] ++ text = text := by simp
    simp only [List.nil_append, same]
    exact (bind_pure _).symm
  | cons c others ih =>
    rw [List.mem_cons, not_or] at plain
    have next : position.advanceBy (c :: others) = (position.advance c).advanceBy others := rfl
    have join (text : String) : String.singleton c ++ (String.ofList others ++ text) =
        String.ofList (c :: others) ++ text := by
      rw [← String.toList_inj]
      simp
    rw [List.cons_append, piecesFrom_cons_of_ne (Ne.symm plain.1), renderOutline_consText,
      ih plain.2, next]
    simp only [bind_assoc, pure_bind, join]

end Outline

section Handlers

variable (engine : Engine) (library : String → Option (List TreeNode))
  {deeper : String → Context → Result String} (context : Context)

private theorem renderNode_parse (name : String) (chars : List Char) :
    engine.renderNode deeper context (.inline name (argumentText chars) StandardTag.parse) =
      (engine.scene library).valueText context chars := by
  rw [renderNode, call, Scene.valueText, Scene.expression, scene, Engine.read]
  cases Expression.read engine.delimiters (argumentText chars) with
  | error failure => rfl
  | ok tokens =>
    cases tokens with
    | nil => rfl
    | cons token rest => rfl

/-- The deeper rendering of printings is the deeper meaning of trees. -/
def Agree (deeper : String → Context → Result String)
    (treeDeeper : List TreeNode → Context → Result String) : Prop :=
  ∀ tree source context, PrintsAll tree source.toList →
    deeper source context = treeDeeper tree context

variable {engine library} {treeDeeper : List TreeNode → Context → Result String}

/-- Loading and rendering a template is the meaning of the tree in the library. -/
private theorem load_render (stocked : engine.IsStocked library) (agree : Agree deeper treeDeeper)
    (name : String) :
    (do
      match ← engine.load name with
      | some source => deeper source context
      | none => return "") =
      match library name with
      | some tree => treeDeeper tree context
      | none => .ok "" := by
  rw [load, stocked.noLoader]
  cases found : engine.templates.find? name with
  | none =>
    rw [stocked.missing name found]
    rfl
  | some source =>
    obtain ⟨tree, stored, printed⟩ := stocked.stored name source found
    rw [stored]
    exact agree tree source context printed

private theorem renderNode_include (stocked : engine.IsStocked library)
    (agree : Agree deeper treeDeeper) (arguments : TagText) :
    engine.renderNode deeper context
        (.inline "include" (argumentText arguments.chars) StandardTag.includeTemplate) =
      (engine.scene library).inclusionText treeDeeper context arguments := by
  rw [renderNode, call, Scene.inclusionText, Scene.expression, scene, Engine.read]
  cases Expression.read engine.delimiters (argumentText arguments.chars) with
  | error failure => rfl
  | ok tokens =>
    match tokens with
    | [] => rfl
    | [token] =>
      have counted : checkArgumentCount "include" 1 1 = .ok () := rfl
      simp only [Result.ok_bind, pure_bind, StandardTag.includeTemplate, List.length_singleton,
        counted, TagCall.evaluate, TagCall.render]
      apply Result.bind_congr_of_ok
      intro value _
      cases value with
      | str name => exact load_render context stocked agree name
      | null | bool | int | float | list | map => rfl
    | first :: second :: rest =>
      have counted : checkArgumentCount "include" (first :: second :: rest).length 1 =
          .error (.tooManyArguments "include" 1 (first :: second :: rest).length) := by
        rw [checkArgumentCount, if_pos (by simp)]
      simp only [Result.ok_bind, pure_bind, StandardTag.includeTemplate, counted]
      rfl

variable (engine library)

/-- The body of a section is rendered as the body of the tree. -/
private theorem sectionBody_render (agree : Agree deeper treeDeeper) {body : List TreeNode}
    {source : String} (printed : PrintsAll body source.toList) :
    (engine.sectionBody deeper source).render context =
      treeDeeper ((engine.scene library).body body) context := by
  rw [SectionBody.render, sectionBody, Scene.body, scene]
  split
  · apply agree
    rw [String.toList_ofList]
    exact printsAll_trimAll printed
  · exact agree _ _ _ printed

/-- A section that has an output is the last one. -/
private theorem bind_some_output (output rest : Result String) :
    ((do return some (← output) : Result (Option String)) >>= fun found =>
      match found with
      | some text => (pure text : Result String)
      | none => rest) = output := by
  cases output <;> rfl

/-- A section under a condition is rendered if the condition holds. -/
private theorem renderSections_condition (agree : Agree deeper treeDeeper) {name : String}
    (conditional : name = "if" ∨ name = "elif") {condition : TagText} {body : List TreeNode}
    {first : Section} (isSection : IsSection name condition body StandardTag.conditional first)
    (rest : List Section) :
    engine.renderSections deeper context (first :: rest) =
      (engine.scene library).sectionText treeDeeper context condition body
        (engine.renderSections deeper context rest) := by
  have bodyRead := sectionBody_render engine library context agree isSection.body
  rw [renderSections, isSection.name, isSection.arguments, isSection.handler, call,
    Scene.sectionText, Scene.expression, scene, Engine.read]
  cases Expression.read engine.delimiters (argumentText condition.chars) with
  | error failure => rfl
  | ok tokens =>
    simp only [Result.ok_bind, pure_bind, StandardTag.conditional, if_pos conditional,
      TagCall.evaluate, bind_assoc]
    apply Result.bind_congr_of_ok
    intro value _
    have chosen := (bind_some_output _ (engine.renderSections deeper context rest)).trans bodyRead
    cases value with
    | null => exact chosen
    | bool b =>
      cases b with
      | true => exact chosen
      | false => rfl
    | int | float | str | list | map => rfl

/-- A section without a condition is always rendered. -/
private theorem renderSections_otherwise (agree : Agree deeper treeDeeper) {arguments : TagText}
    {body : List TreeNode} {first : Section}
    (isSection : IsSection "else" arguments body StandardTag.conditional first)
    (rest : List Section) :
    engine.renderSections deeper context (first :: rest) =
      ((engine.scene library).expression arguments.chars >>= fun tokens =>
        match tokens with
        | [] => treeDeeper ((engine.scene library).body body) context
        | tokens => throw (.tooManyArguments "else" 0 tokens.length)) := by
  have bodyRead := sectionBody_render engine library context agree isSection.body
  have noCondition : ¬ ("else" = "if" ∨ "else" = "elif") := by decide
  rw [renderSections, isSection.name, isSection.arguments, isSection.handler, call,
    Scene.expression, scene, Engine.read]
  cases Expression.read engine.delimiters (argumentText arguments.chars) with
  | error failure => rfl
  | ok tokens =>
    simp only [Result.ok_bind, pure_bind, StandardTag.conditional, if_neg noCondition, if_true]
    cases tokens with
    | nil => exact (bind_some_output _ (engine.renderSections deeper context rest)).trans bodyRead
    | cons token others => rfl

/-- The sections of a conditional are rendered as the sections of the tree. -/
private theorem renderSections_branches (agree : Agree deeper treeDeeper)
    (branches : List TreeBranch)
    (sections : List Section) (areSections : AreSections branches sections) :
    engine.renderSections deeper context sections =
      (engine.scene library).branchesText treeDeeper context branches := by
  induction branches generalizing sections with
  | nil =>
    obtain rfl := areSections
    rfl
  | cons branch rest ih =>
    obtain ⟨kind, arguments, body⟩ := branch
    obtain ⟨first, others, isSection, areOthers, rfl⟩ := areSections
    cases kind with
    | elif =>
      rw [renderSections_condition engine library context agree (.inr rfl) isSection,
        ih others areOthers]
      rfl
    | otherwise => exact renderSections_otherwise engine library context agree isSection others

/-- The loop handler gives an output for every header that it accepts. -/
private theorem forLoop_eq (agree : Agree deeper treeDeeper) {body : List TreeNode}
    {source : String}
    (printed : PrintsAll body source.toList) (name : String) (tokens : Expression) :
    StandardTag.forLoop ⟨name, tokens, context, deeper, engine.load⟩
        (engine.sectionBody deeper source) = do
      return some (← (engine.scene library).repeatedText treeDeeper context body tokens) := by
  have bodyRead (inner : Context) := sectionBody_render engine library inner agree printed
  match tokens with
  | [] => rfl
  | [_] => rfl
  | [_, _] => rfl
  | [variableToken, keyword, iterated] =>
    cases variableToken with
    | operator | str | int | float | list | group => rfl
    | identifier path =>
      obtain ⟨variableName, attributes⟩ := path
      cases attributes with
      | cons inner others => rfl
      | nil =>
        cases keyword with
        | identifier | str | int | float | list | group => rfl
        | operator op =>
          cases op with
          | constant | negation => rfl
          | binary op =>
            cases op with
            | contained =>
              simp only [StandardTag.forLoop, Scene.repeatedText, StandardTag.loopVariable,
                StandardTag.loopKeyword, Result.ok_bind, bind_assoc]
              apply Result.bind_congr_of_ok
              intro value _
              rw [StandardTag.loopElements]
              cases value.elements? with
              | none => rfl
              | some elements => simp only [Result.ok_bind, bodyRead, pure_bind, bind_assoc]
            | add | sub | mul | div | floorDiv | mod | pow | equal | unequal | greater
            | greaterEqual | less | lessEqual | and | or => rfl
  | first :: second :: third :: fourth :: rest =>
    have many : 3 < (first :: second :: third :: fourth :: rest).length := by
      simp only [List.length_cons]
      omega
    have counted : checkArgumentCount "for" (first :: second :: third :: fourth :: rest).length 3 =
        .error (.tooManyArguments "for" 3 (first :: second :: third :: fourth :: rest).length) := by
      rw [checkArgumentCount, if_pos many]
    simp only [StandardTag.forLoop, Scene.repeatedText, counted, if_pos many]
    rfl

/-- The section of a loop is rendered once for each element. -/
private theorem renderSections_loop (agree : Agree deeper treeDeeper) {header : TagText}
    {body : List TreeNode} {first : Section}
    (isSection : IsSection "for" header body StandardTag.forLoop first) :
    engine.renderSections deeper context [first] = (do
      let tokens ← (engine.scene library).expression header.chars
      (engine.scene library).repeatedText treeDeeper context body tokens) := by
  rw [renderSections, isSection.name, isSection.arguments, isSection.handler, call,
    Scene.expression, scene, Engine.read]
  cases Expression.read engine.delimiters (argumentText header.chars) with
  | error failure => rfl
  | ok tokens =>
    simp only [Result.ok_bind, pure_bind, forLoop_eq engine library context agree isSection.body]
    exact bind_some_output _ (engine.renderSections deeper context [])

variable {engine library}

/-- A printed part renders to its meaning, followed by what is behind it. -/
theorem renderOutline_of_prints (stocked : engine.IsStocked library)
    (agree : Agree deeper treeDeeper) {node : TreeNode} {source : List Char}
    (printed : node.Prints source) (position : Position) (rest : List Char) :
    engine.renderOutline deeper context
        (outlineFrom StandardTag.all none (piecesFrom position (source ++ rest))) = (do
      let text ← (engine.scene library).nodeText treeDeeper context node
      let others ← engine.renderOutline deeper context
        (outlineFrom StandardTag.all none (piecesFrom (position.advanceBy source) rest))
      return text ++ others) := by
  cases node with
  | text content =>
    obtain rfl : source = content.chars := printed
    exact renderOutline_plain engine deeper context content.noOpener position rest
  | substitution expression =>
    have isParse : StandardTag.all.find? Mark.substitutionTag =
        some (.inline StandardTag.parse) := by
      rw [StandardTag.find?_all]
      rfl
    rw [outlineFrom_inline (isMark_of_printsSubstitution printed) isParse, renderOutline_prepend,
      renderNode_parse engine library]
    rfl
  | parse arguments =>
    have isParse : StandardTag.all.find? "parse" = some (.inline StandardTag.parse) := by
      rw [StandardTag.find?_all]
      rfl
    rw [outlineFrom_inline (isMark_of_printsTag isTagName_parse printed) isParse,
      renderOutline_prepend, renderNode_parse engine library]
    rfl
  | inclusion arguments =>
    have isInclude : StandardTag.all.find? "include" =
        some (.inline StandardTag.includeTemplate) := by
      rw [StandardTag.find?_all]
      rfl
    rw [outlineFrom_inline (isMark_of_printsTag isTagName_include printed) isInclude,
      renderOutline_prepend, renderNode_include context stocked agree]
    rfl
  | conditional condition body branches =>
    obtain ⟨first, sections, isSection, areSections, cut⟩ :=
      outlineFrom_conditional printed position rest
    rw [cut, renderOutline_prepend, renderNode,
      renderSections_condition engine library context agree (.inl rfl) isSection,
      renderSections_branches engine library context agree branches sections areSections]
    rfl
  | loop header body =>
    obtain ⟨first, isSection, cut⟩ := outlineFrom_loop printed position rest
    rw [cut, renderOutline_prepend, renderNode,
      renderSections_loop engine library context agree isSection]
    rfl

/-- A printed template renders to the meanings of its parts, put together. -/
theorem renderOutline_of_printsAll (stocked : engine.IsStocked library)
    (agree : Agree deeper treeDeeper) (tree : List TreeNode) (source : List Char)
    (printed : PrintsAll tree source) (position : Position) :
    engine.renderOutline deeper context
        (outlineFrom StandardTag.all none (piecesFrom position source)) = (do
      let parts ← tree.mapM ((engine.scene library).nodeText treeDeeper context)
      return String.join parts) := by
  induction tree generalizing source position with
  | nil =>
    obtain rfl : source = [] := printed
    rw [piecesFrom, outlineFrom]
    rfl
  | cons node rest ih =>
    obtain ⟨first, others, firstPrinted, othersPrinted, rfl⟩ := printed
    rw [renderOutline_of_prints context stocked agree firstPrinted, ih others othersPrinted,
      List.mapM_cons]
    cases (engine.scene library).nodeText treeDeeper context node with
    | error failure => rfl
    | ok text =>
      cases rest.mapM ((engine.scene library).nodeText treeDeeper context) with
      | error failure => rfl
      | ok parts => exact congrArg Except.ok String.join_cons.symm

private theorem renderWithin_of_printsAll (stocked : engine.IsStocked library) (levels : Nat) :
    Agree (engine.renderWithin levels) ((engine.scene library).renderWithin levels) := by
  induction levels with
  | zero => exact fun _ _ _ _ => rfl
  | succ levels ih =>
    intro tree source context printed
    rw [renderWithin, Scene.renderWithin, outline, stocked.tags, pieces]
    exact renderOutline_of_printsAll context stocked ih tree source.toList printed .start

end Handlers

/-- Rendering the printing of a tree gives exactly the meaning of the tree: the same text or the
same failure, for every context, every store of printed trees and every option. -/
theorem renderSource_eq_render {engine : Engine} {library : String → Option (List TreeNode)}
    (stocked : engine.IsStocked library) {tree : List TreeNode} {source : String}
    (printed : PrintsAll tree source.toList) (context : Context) :
    engine.renderSource source context = (engine.scene library).render tree context :=
  renderWithin_of_printsAll stocked (engine.options.recursionLimit + 1) tree source context printed

/-- A loop over a conditional that writes an element or includes a template. -/
def nestedTree : List TreeNode :=
  [.loop (.ofText "x in items" (by decide))
    [.conditional (.ofText "x == 1" (by decide))
      [.substitution (.ofText "x" (by decide))]
      [.mk .otherwise .none [.inclusion (.ofText "'other'" (by decide))]]]]

/-- An engine with one template. -/
def stockedEngine : Engine :=
  { templates := ⟨Table.empty.insert "other" "-"⟩ }

/-- The tree of that template. -/
def stockedLibrary (name : String) : Option (List TreeNode) :=
  if name = "other" then some [.text ⟨['-'], by decide⟩] else none

private theorem isStocked_stockedEngine : stockedEngine.IsStocked stockedLibrary where
  tags := rfl
  noLoader := rfl
  stored name source found := by
    rw [stockedEngine, TemplateStore.find?, Table.find?_insert] at found
    rw [stockedLibrary]
    split at found
    · next same =>
      cases found
      exact ⟨_, if_pos same, _, [], rfl, rfl, by decide⟩
    · cases found
  missing name found := by
    rw [stockedEngine, TemplateStore.find?, Table.find?_insert] at found
    rw [stockedLibrary]
    split at found
    · cases found
    · next other => exact if_neg other

theorem renderSource_eq_render_nested :
    stockedEngine.IsStocked stockedLibrary ∧
      PrintsAll nestedTree (String.ofList (printAll nestedTree)).toList ∧
      stockedEngine.renderSource (String.ofList (printAll nestedTree))
          (Context.ofPairs [("items", .list [.int 1, .int 2])]) =
        (stockedEngine.scene stockedLibrary).render nestedTree
          (Context.ofPairs [("items", .list [.int 1, .int 2])]) ∧
      (stockedEngine.scene stockedLibrary).render nestedTree
          (Context.ofPairs [("items", .list [.int 1, .int 2])]) = .ok "1-" := by
  have printed : PrintsAll nestedTree (String.ofList (printAll nestedTree)).toList := by
    rw [String.toList_ofList]
    exact printsAll_printAll nestedTree
  exact ⟨isStocked_stockedEngine, printed,
    renderSource_eq_render isStocked_stockedEngine printed _, by decide +kernel⟩

end Engine

end Stencil
