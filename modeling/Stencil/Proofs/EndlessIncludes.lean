import Mathlib.Data.Set.Defs
import Stencil.Proofs.FirstDefinitions
import Stencil.Proofs.QuotedTexts
import Stencil.Proofs.TreeRendering

/-! # Endless includes

Templates that include one another without end exceed the recursion limit, however many there are
and whatever stands behind their includes: `Engine.render_of_includesWithin`. An include is rendered
before anything behind it is looked at, so that at every level the failure of the level below it is
handed on as it is.
-/

namespace Stencil

/-- A name that stands for itself between single quotes in a tag. -/
structure IsQuotable (name : String) : Prop where
  noQuote : '\'' ∉ name.toList
  noEscape : '\\' ∉ name.toList
  noCloser : ¬ ['%', '\x7d'] <:+: name.toList

namespace Expression

open Delimiters Lexeme

variable {delimiters : Delimiters}

/-- An open quote is closed by the first quote behind characters that stand for themselves. -/
private theorem scanFrom_quote {chars : List Char} (noQuote : '\'' ∉ chars)
    (noEscape : '\\' ∉ chars) (position start : Nat) (text : String) :
    scanFrom delimiters position (.enclosed (.quote singleQuote text false) start)
        (chars ++ ['\'']) = ⟨[.token (.str (text ++ String.ofList chars))], none⟩ := by
  induction chars generalizing position text with
  | nil =>
    rw [List.nil_append, scanFrom, offer_enclosed, push_closing, String.ofList_nil,
      String.append_empty]
    rfl
  | cons c rest ih =>
    rw [List.mem_cons, not_or] at noQuote noEscape
    rw [List.cons_append, scanFrom, offer_enclosed,
      push_plain text (Ne.symm noEscape.1) (Ne.symm noQuote.1), append_ofList_cons]
    simp only [ih noQuote.2 noEscape.2]
    rfl

/-- A quotable name is read from between single quotes as a literal, whatever other literals there
are. -/
theorem read_quoted (opens : delimiters.find? '\'' = some singleQuote) {name : String}
    (quotable : IsQuotable name) :
    read delimiters (String.ofList ('\'' :: name.toList ++ ['\''])) = .ok [.str name] := by
  have begun : offer delimiters 0 '\'' .nothing =
      .ok ([], .enclosed (.quote singleQuote "" false) 0) :=
    offer_nothing (by rw [begin, opens]; rfl)
  have scanned := @scanFrom_quote delimiters _ quotable.noQuote quotable.noEscape 1 0 ""
  rw [String.empty_append, String.ofList_toList] at scanned
  rw [read_eq, scan, String.toList_ofList, List.cons_append, scanFrom, begun]
  simp only [Nat.zero_add, scanned]
  rfl

end Expression

namespace Template

/-- A quotable name between single quotes, as the argument of a tag. -/
def quotedArgument {name : String} (quotable : IsQuotable name) : TagText where
  chars := '\'' :: name.toList ++ ['\'']
  noCloser := by
    intro inside
    rw [List.cons_append] at inside
    rcases List.infix_cons_iff.mp inside with front | inside
    · cases (List.cons_prefix_cons.mp front).1
    · rcases List.infix_concat_iff.mp inside with back | inside
      · obtain ⟨front, same, -⟩ := (List.suffix_concat_iff.mp back).resolve_left (by simp)
        exact absurd (congrArg List.getLast? same) (by simp)
      · exact quotable.noCloser inside

/-- The tag that includes the template of a name. -/
def includeTag (name : String) : String :=
  "\x7b% include '" ++ name ++ "' %\x7d"

private theorem printsTag_includeTag {name : String} (quotable : IsQuotable name) :
    PrintsTag "include" (quotedArgument quotable) (includeTag name).toList := by
  refine ⟨[' '], [' '], [' '], by decide, by decide, by decide, nofun, ?_⟩
  simp [includeTag, quotedArgument]

private theorem argumentText_quotedArgument {name : String} (quotable : IsQuotable name) :
    argumentText (quotedArgument quotable).chars =
      String.ofList ('\'' :: name.toList ++ ['\'']) := by
  have visible : Text.isBlank '\'' = false := by decide
  change String.ofList (Text.trim ('\'' :: (name.toList ++ ['\'']))) = _
  rw [Text.trim_eq, Text.trimStart_cons_of_not_isBlank visible, ← List.cons_append,
    Text.trimEnd_append_singleton visible]

end Template

open Template

namespace Engine

/-- An engine in which the tag that includes templates and the single quotes have their standard
meaning. -/
structure KeepsIncludes (engine : Engine) : Prop where
  tag : engine.tags.find? "include" = some (.inline StandardTag.includeTemplate)
  quote : engine.delimiters.find? '\'' = some Expression.singleQuote

/-- So it is in every engine that starts with the standard definitions, whatever is defined
further. -/
theorem keepsIncludes_performAll (loader : Option Loader) (options : Options)
    (calls : List Registration) :
    (Registration.performAll { loader := loader, options := options } calls).KeepsIncludes := by
  let start : Engine := { loader := loader, options := options }
  have tag : start.find? (.tag "include") = some (.tag (.inline StandardTag.includeTemplate)) := by
    rw [find?, StandardTag.find?_all]
    rfl
  have quote : start.find? (.character '\'') = some (.delimiter Expression.singleQuote) := by
    rw [find?, Expression.find?_singleQuote]
    rfl
  have tagStays := Registration.find?_performAll calls tag
  have quoteStays := Registration.find?_performAll calls quote
  obtain ⟨found, isTag, same⟩ := Option.map_eq_some_iff.mp tagStays
  obtain ⟨delimiter, isQuote, sameQuote⟩ := Option.map_eq_some_iff.mp quoteStays
  cases same
  cases sameQuote
  exact ⟨isTag, isQuote⟩

/-- A source that includes one of the given templates behind plain text, whatever stands behind the
include. -/
def Includes (names : Set String) (source : String) : Prop :=
  ∃ front name behind, '\x7b' ∉ front.toList ∧ name ∈ names ∧ IsQuotable name ∧
    source = front ++ includeTag name ++ behind

/-- The given templates are there, stored or known to the loader, and each of them includes one of
them. -/
def IncludesWithin (engine : Engine) (names : Set String) : Prop :=
  ∀ name ∈ names, ∃ source, engine.load name = .ok (some source) ∧ Includes names source

/-- A stored template is there, whatever the loader knows. -/
private theorem load_of_stored {engine : Engine} {name source : String}
    (stored : engine.templates.find? name = some source) :
    engine.load name = .ok (some source) := by
  rw [load, stored]

variable {engine : Engine} {names : Set String}

/-- What an include renders is the template one level deeper. -/
theorem renderNode_includeTag (keeps : engine.KeepsIncludes)
    (deeper : String → Context → Result String) (context : Context) {name source : String}
    (quotable : IsQuotable name) (loaded : engine.load name = .ok (some source)) :
    engine.renderNode deeper context (.inline "include"
        (argumentText (quotedArgument quotable).chars) StandardTag.includeTemplate) =
      deeper source context := by
  rw [renderNode, call, read, argumentText_quotedArgument,
    Expression.read_quoted keeps.quote quotable]
  change (engine.load name >>= fun found => _) = _
  rw [loaded]
  rfl

/-- If no template of the set can be rendered one level deeper, because of a certain failure, no
source that includes one of them can be rendered, because of the same failure. -/
theorem renderOutline_of_includes (keeps : engine.KeepsIncludes)
    (endless : engine.IncludesWithin names) {deeper : String → Context → Result String}
    {context : Context} {failure : Error}
    (fails : ∀ source, Includes names source → deeper source context = .error failure)
    {source : String} (includes : Includes names source) :
    engine.renderOutline deeper context (outline engine.tags source) = .error failure := by
  obtain ⟨front, name, behind, plain, member, quotable, rfl⟩ := includes
  obtain ⟨included, loaded, includes⟩ := endless name member
  rw [outline, pieces, String.toList_append, String.toList_append, List.append_assoc,
    renderOutline_plain engine deeper context plain,
    outlineFrom_inline (isMark_of_printsTag isTagName_include (printsTag_includeTag quotable))
      keeps.tag,
    renderOutline_prepend, renderNode_includeTag keeps deeper context quotable loaded,
    fails included includes]
  rfl

/-- With any number of levels left, a source that includes one of the templates exceeds the
limit. -/
theorem renderWithin_of_includes (keeps : engine.KeepsIncludes)
    (endless : engine.IncludesWithin names) (levels : Nat) (context : Context) :
    ∀ source, Includes names source →
      engine.renderWithin levels source context =
        .error (.recursionLimit engine.options.recursionLimit) := by
  induction levels with
  | zero => exact fun _ _ => rfl
  | succ levels ih =>
    intro source includes
    exact renderOutline_of_includes keeps endless ih includes

/-- Templates that include one another without end are never rendered: the recursion limit is
exceeded, whatever it is and whatever stands behind the includes. -/
theorem render_of_includesWithin (keeps : engine.KeepsIncludes)
    (endless : engine.IncludesWithin names) {name : String} (member : name ∈ names)
    (context : Context) :
    engine.render name context = .error (.recursionLimit engine.options.recursionLimit) := by
  obtain ⟨source, loaded, includes⟩ := endless name member
  rw [render, loaded]
  exact renderWithin_of_includes keeps endless _ context source includes

/-- An engine with two templates that include each other, one of them in front of a tag that is
nowhere defined. -/
def pingPong : Engine :=
  Registration.performAll { options := { recursionLimit := 2 } }
    [.template "ping" ("to " ++ includeTag "pong" ++ "\x7b% oops %\x7d"),
      .template "pong" (includeTag "ping")]

theorem render_of_includesWithin_pingPong :
    pingPong.KeepsIncludes ∧ pingPong.IncludesWithin {"ping", "pong"} ∧
      "pong" ∈ ({"ping", "pong"} : Set String) ∧
      pingPong.render "pong" { } = .error (.recursionLimit 2) := by
  have keeps : pingPong.KeepsIncludes := keepsIncludes_performAll _ _ _
  have endless : pingPong.IncludesWithin {"ping", "pong"} := by
    rintro name (rfl | rfl)
    · exact ⟨_, load_of_stored (by decide +kernel), "to ", "pong", "\x7b% oops %\x7d", by decide,
        .inr rfl, ⟨by decide, by decide, by decide⟩, rfl⟩
    · exact ⟨_, load_of_stored (by decide +kernel), "", "ping", "", by decide, .inl rfl,
        ⟨by decide, by decide, by decide⟩, rfl⟩
  exact ⟨keeps, endless, .inr rfl, render_of_includesWithin keeps endless (.inr rfl) { }⟩

end Engine

end Stencil
