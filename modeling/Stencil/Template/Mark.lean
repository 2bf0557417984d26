import Stencil.Text.Blank

/-! # Marks

A template is text with marks in it: a tag stands between a brace with a percent sign and a
percent sign with a brace, a substitution between two double braces. A mark runs from its opener to
the first closer behind the opener. An opener without a closer is plain text, and the search goes
on at the next character.

`pieces` cuts a template into marks and the text between them; `source_pieces` says that nothing
is lost.
-/

namespace Stencil

/-- A place in a text: the number of characters before it, its line, and its column in the line,
the last two counted from one. -/
structure Position where
  offset : Nat
  line : Nat
  column : Nat
  deriving DecidableEq, Repr

namespace Position

/-- The beginning of a text. -/
def start : Position :=
  ⟨0, 1, 1⟩

/-- The place behind one character. -/
def advance (position : Position) (c : Char) : Position :=
  if c = '\n' then ⟨position.offset + 1, position.line + 1, 1⟩
  else ⟨position.offset + 1, position.line, position.column + 1⟩

/-- The place behind a text. -/
def advanceBy (position : Position) (text : List Char) : Position :=
  text.foldl advance position

@[simp] theorem advanceBy_append (position : Position) (first second : List Char) :
    position.advanceBy (first ++ second) = (position.advanceBy first).advanceBy second :=
  List.foldl_append

end Position

/-- The two kinds of mark. -/
inductive MarkKind
  | tag
  | substitution
  deriving DecidableEq, Repr

namespace MarkKind

/-- The two characters that open a mark. -/
def opener : MarkKind → List Char
  | .tag => ['\x7b', '%']
  | .substitution => ['\x7b', '\x7b']

/-- The two characters that close a mark. -/
def closer : MarkKind → Char × Char
  | .tag => ('%', '\x7d')
  | .substitution => ('\x7d', '\x7d')

end MarkKind

/-- A tag or a substitution, with the text between its opener and its closer. -/
structure Mark where
  kind : MarkKind
  inner : List Char
  position : Position
  deriving DecidableEq, Repr

namespace Mark

/-- The whole text of a mark. -/
def source (mark : Mark) : List Char :=
  mark.kind.opener ++ mark.inner ++ [mark.kind.closer.1, mark.kind.closer.2]

/-- The place behind a mark. -/
def stop (mark : Mark) : Position :=
  mark.position.advanceBy mark.source

/-- The tag that a substitution stands for. -/
def substitutionTag : String := "parse"

/-- The name of the tag: the trimmed text up to the first blank character. -/
def name (mark : Mark) : String :=
  match mark.kind with
  | .substitution => substitutionTag
  | .tag => String.ofList ((Text.trim mark.inner).takeWhile fun c => !Text.isBlank c)

/-- The arguments of the tag: the trimmed text behind the name. -/
def arguments (mark : Mark) : String :=
  match mark.kind with
  | .substitution => String.ofList (Text.trim mark.inner)
  | .tag =>
    String.ofList (Text.trim ((Text.trim mark.inner).dropWhile fun c => !Text.isBlank c))

end Mark

namespace Template

/-- A mark, or text between marks. -/
inductive Piece
  | text (chars : List Char)
  | mark (found : Mark)
  deriving DecidableEq, Repr

/-- The text of a piece. -/
def Piece.source : Piece → List Char
  | .text chars => chars
  | .mark found => found.source

/-- Cuts a text around the first occurrence of two characters next to each other. -/
def breakAt? (closer : Char × Char) : List Char → Option (List Char × List Char)
  | first :: second :: rest =>
    if first = closer.1 ∧ second = closer.2 then some ([], rest)
    else (breakAt? closer (second :: rest)).map fun (before, behind) => (first :: before, behind)
  | _ => none

theorem append_of_breakAt? {closer : Char × Char} {text before behind : List Char}
    (found : breakAt? closer text = some (before, behind)) :
    text = before ++ closer.1 :: closer.2 :: behind := by
  induction text generalizing before with
  | nil => simp [breakAt?] at found
  | cons first rest ih =>
    cases rest with
    | nil => simp [breakAt?] at found
    | cons second rest =>
      rw [breakAt?] at found
      split at found
      · next here =>
        obtain ⟨rfl, rfl⟩ := here
        simp only [Option.some.injEq, Prod.mk.injEq] at found
        obtain ⟨rfl, rfl⟩ := found
        rfl
      · obtain ⟨⟨later, rest⟩, inside, same⟩ := Option.map_eq_some_iff.mp found
        simp only [Prod.mk.injEq] at same
        obtain ⟨rfl, rfl⟩ := same
        rw [ih inside, List.cons_append]

/-- The mark of a kind whose opener has just been read, and the text behind its closer. -/
def closeMark? (kind : MarkKind) (position : Position) (text : List Char) :
    Option (Mark × List Char) :=
  (breakAt? kind.closer text).map fun (inner, behind) => (⟨kind, inner, position⟩, behind)

/-- The mark that starts at the beginning of a text, and the text behind it. -/
def markAt? (position : Position) : List Char → Option (Mark × List Char)
  | '\x7b' :: '%' :: rest => closeMark? .tag position rest
  | '\x7b' :: '\x7b' :: rest => closeMark? .substitution position rest
  | _ => none

private theorem append_of_closeMark? {kind : MarkKind} {position : Position}
    {text behind : List Char} {mark : Mark}
    (found : closeMark? kind position text = some (mark, behind)) :
    kind.opener ++ text = mark.source ++ behind := by
  obtain ⟨⟨inner, rest⟩, inside, same⟩ := Option.map_eq_some_iff.mp found
  simp only [Prod.mk.injEq] at same
  obtain ⟨rfl, rfl⟩ := same
  simp [Mark.source, append_of_breakAt? inside]

/-- A text that starts with a mark is the mark followed by the text behind it. -/
theorem append_of_markAt? {position : Position} {text behind : List Char} {mark : Mark}
    (found : markAt? position text = some (mark, behind)) : text = mark.source ++ behind := by
  unfold markAt? at found
  split at found
  · exact append_of_closeMark? found
  · exact append_of_closeMark? found
  · simp at found

private theorem length_of_markAt? {position : Position} {text behind : List Char} {mark : Mark}
    (found : markAt? position text = some (mark, behind)) : behind.length < text.length := by
  rw [append_of_markAt? found]
  simp [Mark.source]
  omega

/-- A character in front of the pieces, joined to the text that they start with. -/
def consText (c : Char) : List Piece → List Piece
  | .text chars :: rest => .text (c :: chars) :: rest
  | pieces => .text [c] :: pieces

/-- The pieces of a text that starts at a given place. -/
def piecesFrom (position : Position) (text : List Char) : List Piece :=
  match text with
  | [] => []
  | c :: rest =>
    match _found : markAt? position (c :: rest) with
    | some (mark, behind) => .mark mark :: piecesFrom mark.stop behind
    | none => consText c (piecesFrom (position.advance c) rest)
termination_by text.length
decreasing_by
  · exact length_of_markAt? (by assumption)
  · simp

/-- The pieces of a template. -/
def pieces (text : List Char) : List Piece :=
  piecesFrom .start text

@[simp] theorem flatMap_source_consText (c : Char) (rest : List Piece) :
    (consText c rest).flatMap Piece.source = c :: rest.flatMap Piece.source := by
  unfold consText
  split <;> simp [Piece.source]

@[simp] theorem source_piecesFrom (position : Position) (text : List Char) :
    (piecesFrom position text).flatMap Piece.source = text := by
  fun_induction piecesFrom position text with
  | case1 => rfl
  | case2 position c rest mark behind found ih =>
    rw [List.flatMap_cons, ih, Piece.source, append_of_markAt? found]
  | case3 position c rest found ih => rw [flatMap_source_consText, ih]

/-- The pieces of a template, put together, are the template. -/
@[simp] theorem source_pieces (text : List Char) : (pieces text).flatMap Piece.source = text :=
  source_piecesFrom .start text

end Template

end Stencil
