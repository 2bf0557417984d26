import Stencil.Proofs.Trimming
import Stencil.Template.Mark

/-! # Templates as trees

A template of text, substitutions, inline tags, conditionals and loops is a tree: the body of each
section is a template again. `TreeNode.Prints` says which texts are printings of a tree. Blank
characters may stand beside the delimiters of a mark, and at least one stands between the name of
a tag and its arguments.

Every tree has a printing, `printsAll_printAll`. Trimming a printing gives a printing of the
trimmed tree, `printsAll_trimAll`.
-/

namespace Stencil

section Trees

/-- Text in which no mark can start. -/
structure PlainText where
  chars : List Char
  noOpener : '\x7b' ∉ chars

/-- Text that may stand in a tag behind its name. -/
structure TagText where
  chars : List Char
  noCloser : ¬ ['%', '\x7d'] <:+: chars

/-- Text that may stand in a substitution. -/
structure SubstitutionText where
  chars : List Char
  noCloser : ¬ ['\x7d', '\x7d'] <:+: chars
  closed : chars.getLast? ≠ some '\x7d'

/-- A text without the first character of the closer. -/
def TagText.ofText (text : String) (plain : '%' ∉ text.toList) : TagText where
  chars := text.toList
  noCloser inside := plain (inside.subset List.mem_cons_self)

/-- No arguments. -/
def TagText.none : TagText :=
  .ofText "" (by decide)

/-- A text without a closing brace. -/
def SubstitutionText.ofText (text : String) (plain : '\x7d' ∉ text.toList) :
    SubstitutionText where
  chars := text.toList
  noCloser inside := plain (inside.subset List.mem_cons_self)
  closed last := plain (List.mem_of_getLast? last)

/-- The tags that start another section of a conditional. -/
inductive BranchKind
  | elif
  | otherwise
  deriving DecidableEq, Repr

/-- The name of the tag. -/
def BranchKind.name : BranchKind → String
  | .elif => "elif"
  | .otherwise => "else"

mutual

/-- A part of a template. -/
inductive TreeNode
  | text (content : PlainText)
  | substitution (expression : SubstitutionText)
  | parse (arguments : TagText)
  | inclusion (arguments : TagText)
  | conditional (condition : TagText) (body : List TreeNode) (branches : List TreeBranch)
  | loop (header : TagText) (body : List TreeNode)

/-- A further section of a conditional. -/
inductive TreeBranch
  | mk (kind : BranchKind) (arguments : TagText) (body : List TreeNode)

end

end Trees

section Printings

/-- The printings of a tag with a name and arguments. -/
def PrintsTag (name : String) (arguments : TagText) (source : List Char) : Prop :=
  ∃ before gap after, Text.isAllBlank before = true ∧ Text.isAllBlank gap = true ∧
    Text.isAllBlank after = true ∧ (gap = [] → arguments.chars = []) ∧
    source = ['\x7b', '%'] ++ before ++ name.toList ++ gap ++ arguments.chars ++ after ++
      ['%', '\x7d']

/-- The printings of a substitution. -/
def PrintsSubstitution (expression : SubstitutionText) (source : List Char) : Prop :=
  ∃ before after, Text.isAllBlank before = true ∧ Text.isAllBlank after = true ∧
    source = ['\x7b', '\x7b'] ++ before ++ expression.chars ++ after ++ ['\x7d', '\x7d']

mutual

/-- The printings of a part of a template. -/
def TreeNode.Prints : TreeNode → List Char → Prop
  | .text content, source => source = content.chars
  | .substitution expression, source => PrintsSubstitution expression source
  | .parse arguments, source => PrintsTag "parse" arguments source
  | .inclusion arguments, source => PrintsTag "include" arguments source
  | .conditional condition body branches, source =>
    ∃ opening bodySource branchesSource closing, PrintsTag "if" condition opening ∧
      PrintsAll body bodySource ∧ PrintsBranches branches branchesSource ∧
      PrintsTag "endif" .none closing ∧
      source = opening ++ bodySource ++ branchesSource ++ closing
  | .loop header body, source =>
    ∃ opening bodySource closing, PrintsTag "for" header opening ∧ PrintsAll body bodySource ∧
      PrintsTag "endfor" .none closing ∧ source = opening ++ bodySource ++ closing

/-- The printings of a template, part by part. -/
def PrintsAll : List TreeNode → List Char → Prop
  | [], source => source = []
  | node :: rest, source =>
    ∃ first others, node.Prints first ∧ PrintsAll rest others ∧ source = first ++ others

/-- The printings of the further sections of a conditional. -/
def PrintsBranches : List TreeBranch → List Char → Prop
  | [], source => source = []
  | .mk kind arguments body :: rest, source =>
    ∃ opening bodySource others, PrintsTag kind.name arguments opening ∧
      PrintsAll body bodySource ∧ PrintsBranches rest others ∧
      source = opening ++ bodySource ++ others

end

end Printings

section SomePrinting

/-- A tag with one space beside its delimiters and behind its name. -/
def printTag (name : String) (arguments : TagText) : List Char :=
  ['\x7b', '%'] ++ [' '] ++ name.toList ++ [' '] ++ arguments.chars ++ [' '] ++ ['%', '\x7d']

/-- A substitution with one space beside its delimiters. -/
def printSubstitution (expression : SubstitutionText) : List Char :=
  ['\x7b', '\x7b'] ++ [' '] ++ expression.chars ++ [' '] ++ ['\x7d', '\x7d']

theorem printsTag_printTag (name : String) (arguments : TagText) :
    PrintsTag name arguments (printTag name arguments) :=
  ⟨[' '], [' '], [' '], by decide, by decide, by decide, nofun, rfl⟩

private theorem printsSubstitution_printSubstitution (expression : SubstitutionText) :
    PrintsSubstitution expression (printSubstitution expression) :=
  ⟨[' '], [' '], by decide, by decide, rfl⟩

mutual

/-- A printing of a part of a template. -/
def TreeNode.print : TreeNode → List Char
  | .text content => content.chars
  | .substitution expression => printSubstitution expression
  | .parse arguments => printTag "parse" arguments
  | .inclusion arguments => printTag "include" arguments
  | .conditional condition body branches =>
    printTag "if" condition ++ printAll body ++ printBranches branches ++ printTag "endif" .none
  | .loop header body => printTag "for" header ++ printAll body ++ printTag "endfor" .none

/-- A printing of a template. -/
def printAll : List TreeNode → List Char
  | [] => []
  | node :: rest => node.print ++ printAll rest

/-- A printing of the further sections of a conditional. -/
def printBranches : List TreeBranch → List Char
  | [] => []
  | .mk kind arguments body :: rest =>
    printTag kind.name arguments ++ printAll body ++ printBranches rest

end

mutual

private theorem prints_print : ∀ node : TreeNode, node.Prints node.print
  | .text _ => rfl
  | .substitution expression => printsSubstitution_printSubstitution expression
  | .parse arguments => printsTag_printTag "parse" arguments
  | .inclusion arguments => printsTag_printTag "include" arguments
  | .conditional condition body branches =>
    ⟨_, _, _, _, printsTag_printTag "if" condition, printsAll_printAll body,
      printsBranches_printBranches branches, printsTag_printTag "endif" .none, rfl⟩
  | .loop header body =>
    ⟨_, _, _, printsTag_printTag "for" header, printsAll_printAll body,
      printsTag_printTag "endfor" .none, rfl⟩

/-- Every template has a printing. -/
theorem printsAll_printAll : ∀ tree : List TreeNode, PrintsAll tree (printAll tree)
  | [] => rfl
  | node :: rest => ⟨_, _, prints_print node, printsAll_printAll rest, rfl⟩

private theorem printsBranches_printBranches : ∀ branches : List TreeBranch,
    PrintsBranches branches (printBranches branches)
  | [] => rfl
  | .mk kind arguments body :: rest =>
    ⟨_, _, _, printsTag_printTag kind.name arguments, printsAll_printAll body,
      printsBranches_printBranches rest, rfl⟩

end

end SomePrinting

section Trimmed

namespace PlainText

/-- The text without the blank characters in front of it. -/
def trimStart (text : PlainText) : PlainText where
  chars := Text.trimStart text.chars
  noOpener member := text.noOpener ((List.dropWhile_sublist _).subset member)

/-- The text without the blank characters behind it. -/
def trimEnd (text : PlainText) : PlainText where
  chars := Text.trimEnd text.chars
  noOpener member := by
    obtain ⟨back, -, split⟩ := Text.exists_append_trimEnd text.chars
    apply text.noOpener
    rw [split]
    exact List.mem_append_left _ member

end PlainText

namespace TreeNode

/-- Whether a part is nothing but blank characters. -/
def isBlank : TreeNode → Bool
  | .text content => Text.isAllBlank content.chars
  | _ => false

/-- The part without blank characters in front of it. -/
def trimStart : TreeNode → TreeNode
  | .text content => .text content.trimStart
  | node => node

/-- The part without blank characters behind it. -/
def trimEnd : TreeNode → TreeNode
  | .text content => .text content.trimEnd
  | node => node

/-- The template without blank characters in front of it. -/
def trimAllStart : List TreeNode → List TreeNode
  | [] => []
  | node :: rest => if node.isBlank then trimAllStart rest else node.trimStart :: rest

/-- The template without blank characters behind it. -/
def trimAllEnd : List TreeNode → List TreeNode
  | [] => []
  | node :: rest =>
    if rest.all isBlank then if node.isBlank then [] else [node.trimEnd]
    else node :: trimAllEnd rest

/-- The template without blank characters around it. -/
def trimAll (tree : List TreeNode) : List TreeNode :=
  trimAllEnd (trimAllStart tree)

end TreeNode

/-- A text between braces. -/
def IsBraced (source : List Char) : Prop :=
  ∃ inner, source = '\x7b' :: inner ++ ['\x7d']

private theorem isBraced_append {first last : List Char} (firstBraced : IsBraced first)
    (lastBraced : IsBraced last) (middle : List Char) : IsBraced (first ++ middle ++ last) := by
  obtain ⟨front, rfl⟩ := firstBraced
  obtain ⟨back, rfl⟩ := lastBraced
  exact ⟨front ++ ['\x7d'] ++ middle ++ '\x7b' :: back, by simp⟩

private theorem isBraced_of_printsTag {name : String} {arguments : TagText} {source : List Char}
    (printed : PrintsTag name arguments source) : IsBraced source := by
  obtain ⟨before, gap, after, -, -, -, -, rfl⟩ := printed
  exact ⟨'%' :: before ++ name.toList ++ gap ++ arguments.chars ++ after ++ ['%'], by simp⟩

private theorem isBraced_of_printsSubstitution {expression : SubstitutionText} {source : List Char}
    (printed : PrintsSubstitution expression source) : IsBraced source := by
  obtain ⟨before, after, -, -, rfl⟩ := printed
  exact ⟨'\x7b' :: before ++ expression.chars ++ after ++ ['\x7d'], by simp⟩

namespace TreeNode

/-- A part that is no text is printed between braces. -/
private theorem isBraced_of_prints {node : TreeNode} {source : List Char}
    (printed : node.Prints source)
    (marked : ∀ content, node ≠ .text content) : IsBraced source := by
  cases node with
  | text content => exact absurd rfl (marked content)
  | substitution expression => exact isBraced_of_printsSubstitution printed
  | parse arguments => exact isBraced_of_printsTag printed
  | inclusion arguments => exact isBraced_of_printsTag printed
  | conditional condition body branches =>
    obtain ⟨opening, bodySource, branchesSource, closing, opened, -, -, closed, rfl⟩ := printed
    rw [List.append_assoc opening]
    exact isBraced_append (isBraced_of_printsTag opened) (isBraced_of_printsTag closed) _
  | loop header body =>
    obtain ⟨opening, bodySource, closing, opened, -, closed, rfl⟩ := printed
    exact isBraced_append (isBraced_of_printsTag opened) (isBraced_of_printsTag closed) _

private theorem isAllBlank_of_isBraced {source : List Char} (braced : IsBraced source) :
    Text.isAllBlank source = false := by
  obtain ⟨inner, rfl⟩ := braced
  have visible : Text.isBlank '\x7b' = false := by decide
  rw [List.cons_append, Text.isAllBlank, List.all_cons, visible, Bool.false_and]

/-- What a part does when blank characters are cut off is what its printing does. -/
private theorem prints_cases {node : TreeNode} {source : List Char} (printed : node.Prints source) :
    Text.isAllBlank source = node.isBlank ∧ node.trimStart.Prints (Text.trimStart source) ∧
      node.trimEnd.Prints (Text.trimEnd source) := by
  by_cases marked : ∀ content, node ≠ .text content
  · have braced := isBraced_of_prints printed marked
    have same : node.isBlank = false ∧ node.trimStart = node ∧ node.trimEnd = node := by
      cases node with
      | text content => exact absurd rfl (marked content)
      | substitution | parse | inclusion | conditional | loop => exact ⟨rfl, rfl, rfl⟩
    rw [isAllBlank_of_isBraced braced, same.1, same.2.1, same.2.2]
    obtain ⟨inner, rfl⟩ := braced
    refine ⟨rfl, ?_, ?_⟩
    · rwa [List.cons_append, Text.trimStart_cons_of_not_isBlank (by decide)]
    · rwa [Text.trimEnd_append_singleton (by decide)]
  · simp only [ne_eq, Classical.not_forall, Classical.not_not] at marked
    obtain ⟨content, rfl⟩ := marked
    obtain rfl : source = content.chars := printed
    exact ⟨rfl, rfl, rfl⟩

end TreeNode

end Trimmed

section TrimmedPrintings

open TreeNode

private theorem isAllBlank_of_printsAll {tree : List TreeNode} {source : List Char}
    (printed : PrintsAll tree source) : Text.isAllBlank source = tree.all isBlank := by
  induction tree generalizing source with
  | nil =>
    obtain rfl : source = [] := printed
    rfl
  | cons node rest ih =>
    obtain ⟨first, others, firstPrinted, othersPrinted, rfl⟩ := printed
    rw [Text.isAllBlank_append, List.all_cons, (prints_cases firstPrinted).1, ih othersPrinted]

private theorem printsAll_trimAllStart {tree : List TreeNode} {source : List Char}
    (printed : PrintsAll tree source) : PrintsAll (trimAllStart tree) (Text.trimStart source) := by
  induction tree generalizing source with
  | nil =>
    obtain rfl : source = [] := printed
    exact rfl
  | cons node rest ih =>
    obtain ⟨first, others, firstPrinted, othersPrinted, rfl⟩ := printed
    obtain ⟨sameBlank, startPrinted, -⟩ := prints_cases firstPrinted
    rw [trimAllStart, Text.trimStart_append, sameBlank]
    split
    · exact ih othersPrinted
    · exact ⟨_, _, startPrinted, othersPrinted, rfl⟩

private theorem printsAll_trimAllEnd {tree : List TreeNode} {source : List Char}
    (printed : PrintsAll tree source) : PrintsAll (trimAllEnd tree) (Text.trimEnd source) := by
  induction tree generalizing source with
  | nil =>
    obtain rfl : source = [] := printed
    exact rfl
  | cons node rest ih =>
    obtain ⟨first, others, firstPrinted, othersPrinted, rfl⟩ := printed
    obtain ⟨sameBlank, -, endPrinted⟩ := prints_cases firstPrinted
    rw [trimAllEnd, Text.trimEnd_append, isAllBlank_of_printsAll othersPrinted]
    split
    · split
      · next blank =>
        rw [Text.trimEnd_eq_nil.mpr (sameBlank.trans blank)]
        exact rfl
      · exact ⟨_, [], endPrinted, rfl, (List.append_nil _).symm⟩
    · exact ⟨_, _, firstPrinted, ih othersPrinted, rfl⟩

/-- A trimmed printing is a printing of the trimmed tree. -/
theorem printsAll_trimAll {tree : List TreeNode} {source : List Char}
    (printed : PrintsAll tree source) : PrintsAll (trimAll tree) (Text.trim source) :=
  printsAll_trimAllEnd (printsAll_trimAllStart printed)

end TrimmedPrintings

end Stencil
