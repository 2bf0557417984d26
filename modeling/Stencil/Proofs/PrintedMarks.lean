import Stencil.Proofs.TemplateTree

/-! # Marks of a printing

A printed tag or substitution is cut out of a text as one mark with the name and the arguments that
were printed, whatever follows it: `isMark_of_printsTag` and `isMark_of_printsSubstitution`. The
blank characters beside its delimiters do not count.
-/

namespace Stencil.Template

section Closers

theorem breakAt?_cons_of_ne {closer : Char × Char} {first : Char} {rest : List Char}
    (noCloser : first = closer.1 → rest.head? ≠ some closer.2) :
    breakAt? closer (first :: rest) =
      (breakAt? closer rest).map fun cut => (first :: cut.1, cut.2) := by
  cases rest with
  | nil => rfl
  | cons second rest =>
    have other : ¬ (first = closer.1 ∧ second = closer.2) := by
      rintro ⟨starts, rfl⟩
      exact noCloser starts rfl
    rw [breakAt?, if_neg other]

/-- The search for a closer passes a text in which none starts. -/
theorem breakAt?_append {closer : Char × Char} {text rest : List Char}
    (noCloser : ¬ [closer.1, closer.2] <:+: text)
    (apart : text.getLast? = some closer.1 → rest.head? ≠ some closer.2) :
    breakAt? closer (text ++ rest) =
      (breakAt? closer rest).map fun cut => (text ++ cut.1, cut.2) := by
  induction text with
  | nil =>
    rw [List.nil_append]
    cases breakAt? closer rest <;> rfl
  | cons c others ih =>
    have notHere : c = closer.1 → (others ++ rest).head? ≠ some closer.2 := by
      rintro rfl next
      cases others with
      | nil => exact apart rfl next
      | cons d tail =>
        cases next
        exact noCloser ⟨[], tail, rfl⟩
    have notLater : ¬ [closer.1, closer.2] <:+: others := fun inside =>
      noCloser (inside.trans (List.suffix_cons c others).isInfix)
    have apartLater : others.getLast? = some closer.1 → rest.head? ≠ some closer.2 := by
      intro last
      apply apart
      rw [List.getLast?_cons, last]
      rfl
    rw [List.cons_append, breakAt?_cons_of_ne notHere, ih notLater apartLater, Option.map_map]
    rfl

/-- The search for a closer passes characters with which none starts. -/
theorem breakAt?_append_of_not_mem {closer : Char × Char} {text : List Char}
    (never : closer.1 ∉ text) (rest : List Char) :
    breakAt? closer (text ++ rest) =
      (breakAt? closer rest).map fun cut => (text ++ cut.1, cut.2) := by
  apply breakAt?_append
  · intro inside
    exact never (inside.subset List.mem_cons_self)
  · intro last
    exact absurd (List.mem_of_getLast? last) never

end Closers

section WholeMarks

theorem piecesFrom_of_markAt? {position : Position} {text behind : List Char} {mark : Mark}
    (found : markAt? position text = some (mark, behind)) :
    piecesFrom position text = .mark mark :: piecesFrom mark.stop behind := by
  cases text with
  | nil => cases found
  | cons c rest =>
    rw [piecesFrom]
    split
    · next other later again =>
      rw [found] at again
      cases again
      rfl
    · next nothing =>
      rw [found] at nothing
      cases nothing

theorem piecesFrom_cons_of_ne {position : Position} {c : Char} {rest : List Char}
    (plain : c ≠ '\x7b') :
    piecesFrom position (c :: rest) = consText c (piecesFrom (position.advance c) rest) := by
  have noMark : markAt? position (c :: rest) = none := by
    rw [markAt?]
    all_goals simp [plain]
  rw [piecesFrom]
  split
  · next other later again =>
    rw [noMark] at again
    cases again
  · rfl

/-- Text in which no mark can start is put in front of the pieces. -/
theorem piecesFrom_plain_append {chars : List Char} (plain : '\x7b' ∉ chars) (position : Position)
    (more : List Char) : piecesFrom position (chars ++ more) =
      chars.foldr consText (piecesFrom (position.advanceBy chars) more) := by
  induction chars generalizing position with
  | nil => rfl
  | cons c rest ih =>
    rw [List.mem_cons, not_or] at plain
    rw [List.cons_append, piecesFrom_cons_of_ne (Ne.symm plain.1), ih plain.2]
    rfl

/-- A text that is cut out as one mark, whatever follows it. -/
def IsMark (kind : MarkKind) (name arguments : String) (source : List Char) : Prop :=
  ∀ position, ∃ mark : Mark, mark.kind = kind ∧ mark.name = name ∧ mark.arguments = arguments ∧
    mark.source = source ∧ ∀ rest,
      piecesFrom position (source ++ rest) =
        .mark mark :: piecesFrom (position.advanceBy source) rest

/-- A text between an opener and the first closer is a mark. -/
theorem isMark_of_breakAt? (kind : MarkKind) {inner : List Char} {name arguments : String}
    (closes : ∀ rest, breakAt? kind.closer (inner ++ kind.closer.1 :: kind.closer.2 :: rest) =
      some (inner, rest))
    (named : ∀ position, (⟨kind, inner, position⟩ : Mark).name = name ∧
      (⟨kind, inner, position⟩ : Mark).arguments = arguments) :
    IsMark kind name arguments
      (kind.opener ++ inner ++ [kind.closer.1, kind.closer.2]) := by
  intro position
  refine ⟨⟨kind, inner, position⟩, rfl, (named position).1, (named position).2, rfl, fun rest => ?_⟩
  have found : closeMark? kind position (inner ++ kind.closer.1 :: kind.closer.2 :: rest) =
      some (⟨kind, inner, position⟩, rest) := by
    rw [closeMark?, closes rest]
    rfl
  have starts : markAt? position (kind.opener ++ inner ++ [kind.closer.1, kind.closer.2] ++ rest) =
      some (⟨kind, inner, position⟩, rest) := by
    rw [← found]
    cases kind <;> simp [MarkKind.opener, markAt?]
  exact piecesFrom_of_markAt? starts

end WholeMarks

section Printed

/-- A name that a tag can have. -/
structure IsTagName (name : String) : Prop where
  filled : name.toList ≠ []
  visible : ∀ c ∈ name.toList, Text.isBlank c = false
  noCloser : '%' ∉ name.toList

theorem IsTagName.noCloser_infix {name : String} (word : IsTagName name) :
    ¬ ['%', '\x7d'] <:+: name.toList :=
  fun inside => word.noCloser (inside.subset List.mem_cons_self)

theorem isTagName_of_all {name : String} (filled : name.toList ≠ [])
    (checked : (name.toList.all fun c => !Text.isBlank c && c != '%') = true) :
    IsTagName name := by
  simp only [List.all_eq_true, Bool.and_eq_true, Bool.not_eq_true', bne_iff_ne] at checked
  exact ⟨filled, fun c member => (checked c member).1, fun member => (checked '%' member).2 rfl⟩

theorem isTagName_parse : IsTagName "parse" :=
  isTagName_of_all (by decide) (by decide)

theorem isTagName_include : IsTagName "include" :=
  isTagName_of_all (by decide) (by decide)

theorem isTagName_branch (kind : BranchKind) : IsTagName kind.name := by
  cases kind <;> exact isTagName_of_all (by decide) (by decide)

/-- The arguments of a printed tag as they are read. -/
def argumentText (chars : List Char) : String :=
  String.ofList (Text.trim chars)

theorem not_mem_of_isAllBlank {c : Char} (visible : Text.isBlank c = false) {text : List Char}
    (blank : Text.isAllBlank text = true) : c ∉ text := by
  intro member
  rw [List.all_eq_true.mp blank c member] at visible
  cases visible

/-- A text of visible characters in front of a blank one is the name of a tag; if there is none, all
that stands in the tag has to be blank. -/
theorem name_of_tag {name : String} (visible : ∀ c ∈ name.toList, Text.isBlank c = false)
    {before behind : List Char} (blank : Text.isAllBlank before = true)
    (starts : Text.StartsBlank behind)
    (named : name.toList = [] → Text.isAllBlank behind = true) (position : Position) :
    (⟨.tag, before ++ name.toList ++ behind, position⟩ : Mark).name = name ∧
      (⟨.tag, before ++ name.toList ++ behind, position⟩ : Mark).arguments =
        argumentText behind := by
  by_cases filled : name.toList = []
  · obtain rfl : name = "" := String.toList_eq_nil_iff.mp filled
    have nothing : Text.trim (before ++ "".toList ++ behind) = [] := by
      apply Text.trim_of_isAllBlank
      simp [blank, named filled]
    constructor
    · simp only [Mark.name, nothing, List.takeWhile_nil, String.ofList_nil]
    · simp only [Mark.arguments, argumentText, nothing, List.dropWhile_nil, Text.trim_nil,
        Text.trim_of_isAllBlank (named filled)]
  · have trimmed := Text.trim_word_append filled visible blank behind
    obtain ⟨first, others⟩ :=
      Text.takeWhile_word_append visible (Text.startsBlank_trimEnd starts)
    constructor
    · simp only [Mark.name, trimmed, first, String.ofList_toList]
    · simp only [Mark.arguments, trimmed, others, Text.trim_trimEnd, argumentText]

/-- A printed tag is a mark with its name and arguments, as long as its name is visible, does not
hold a closer, and is not missing in front of arguments. -/
theorem isMark_of_visible {name : String} (visible : ∀ c ∈ name.toList, Text.isBlank c = false)
    (noCloser : ¬ ['%', '\x7d'] <:+: name.toList) {arguments : TagText}
    (named : name.toList = [] → arguments.chars = []) {source : List Char}
    (printed : PrintsTag name arguments source) :
    IsMark .tag name (argumentText arguments.chars) source := by
  obtain ⟨before, gap, after, beforeBlank, gapBlank, afterBlank, separated, rfl⟩ := printed
  have notBlank : Text.isBlank '%' = false := by decide
  have braceVisible : Text.isBlank '\x7d' = false := by decide
  have starts : Text.StartsBlank (gap ++ arguments.chars ++ after) := by
    intro c head
    cases gap with
    | nil =>
      rw [separated rfl] at head
      exact List.all_eq_true.mp afterBlank c (List.mem_of_head? head)
    | cons g rest =>
      cases head
      exact List.all_eq_true.mp gapBlank c List.mem_cons_self
  have allBlank (none : name.toList = []) :
      Text.isAllBlank (gap ++ arguments.chars ++ after) = true := by
    simp [named none, gapBlank, afterBlank]
  have marked (position : Position) := name_of_tag visible beforeBlank starts allBlank position
  rw [argumentText, Text.trim_append_append gapBlank afterBlank, ← argumentText] at marked
  have closes (rest : List Char) :
      breakAt? ('%', '\x7d')
          (before ++ name.toList ++ (gap ++ arguments.chars ++ after) ++ '%' :: '\x7d' :: rest) =
        some (before ++ name.toList ++ (gap ++ arguments.chars ++ after), rest) := by
    -- a closing brace follows neither the name nor the arguments
    have apart (text : List Char) (blank : Text.isAllBlank text = true) :
        (text ++ '%' :: '\x7d' :: rest).head? ≠ some '\x7d' := by
      intro next
      cases text with
      | nil => cases next
      | cons c others =>
        cases next
        exact not_mem_of_isAllBlank braceVisible blank List.mem_cons_self
    have apartName : (gap ++ (arguments.chars ++ (after ++ '%' :: '\x7d' :: rest))).head? ≠
        some '\x7d' := by
      cases gap with
      | nil =>
        rw [separated rfl]
        exact apart after afterBlank
      | cons g others =>
        intro next
        cases next
        exact not_mem_of_isAllBlank braceVisible gapBlank List.mem_cons_self
    have regroup : before ++ name.toList ++ (gap ++ arguments.chars ++ after) ++
          '%' :: '\x7d' :: rest =
        before ++ (name.toList ++ (gap ++
          (arguments.chars ++ (after ++ '%' :: '\x7d' :: rest)))) := by
      simp
    have here : breakAt? ('%', '\x7d') ('%' :: '\x7d' :: rest) = some ([], rest) := by
      rw [breakAt?, if_pos ⟨rfl, rfl⟩]
    rw [regroup, breakAt?_append_of_not_mem (not_mem_of_isAllBlank notBlank beforeBlank),
      breakAt?_append noCloser fun _ => apartName,
      breakAt?_append_of_not_mem (not_mem_of_isAllBlank notBlank gapBlank),
      breakAt?_append arguments.noCloser fun _ => apart after afterBlank,
      breakAt?_append_of_not_mem (not_mem_of_isAllBlank notBlank afterBlank), here]
    simp
  have whole := isMark_of_breakAt? .tag closes marked
  simpa [MarkKind.opener, MarkKind.closer] using whole

/-- A printed tag is a mark with its name and arguments. -/
theorem isMark_of_printsTag {name : String} (word : IsTagName name) {arguments : TagText}
    {source : List Char} (printed : PrintsTag name arguments source) :
    IsMark .tag name (argumentText arguments.chars) source :=
  isMark_of_visible word.visible word.noCloser_infix (fun none => absurd none word.filled) printed

/-- A printed substitution is a mark that stands for its tag. -/
theorem isMark_of_printsSubstitution {expression : SubstitutionText} {source : List Char}
    (printed : PrintsSubstitution expression source) :
    IsMark .substitution Mark.substitutionTag (argumentText expression.chars) source := by
  obtain ⟨before, after, beforeBlank, afterBlank, rfl⟩ := printed
  have notBlank : Text.isBlank '\x7d' = false := by decide
  have named (position : Position) :
      (⟨.substitution, before ++ expression.chars ++ after, position⟩ : Mark).name =
          Mark.substitutionTag ∧
        (⟨.substitution, before ++ expression.chars ++ after, position⟩ : Mark).arguments =
          argumentText expression.chars := by
    refine ⟨rfl, ?_⟩
    rw [Mark.arguments, argumentText, Text.trim_append_append beforeBlank afterBlank]
  have closes (rest : List Char) :
      breakAt? ('\x7d', '\x7d')
          (before ++ expression.chars ++ after ++ '\x7d' :: '\x7d' :: rest) =
        some (before ++ expression.chars ++ after, rest) := by
    have apart : expression.chars.getLast? = some '\x7d' →
        (after ++ '\x7d' :: '\x7d' :: rest).head? ≠ some '\x7d' :=
      fun last => absurd last expression.closed
    have here : breakAt? ('\x7d', '\x7d') ('\x7d' :: '\x7d' :: rest) = some ([], rest) := by
      rw [breakAt?, if_pos ⟨rfl, rfl⟩]
    rw [List.append_assoc, List.append_assoc,
      breakAt?_append_of_not_mem (not_mem_of_isAllBlank notBlank beforeBlank),
      breakAt?_append expression.noCloser apart,
      breakAt?_append_of_not_mem (not_mem_of_isAllBlank notBlank afterBlank), here]
    simp
  have whole := isMark_of_breakAt? .substitution closes named
  simpa [MarkKind.opener, MarkKind.closer] using whole

end Printed

end Stencil.Template
