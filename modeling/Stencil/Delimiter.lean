import Stencil.Error
import Stencil.Table

/-! # Delimiters of literals

Which characters open a literal, which ones close it, and which one escapes the next character is
kept in a table that users may extend. The first definition of a character stays: `Delimiters.add`
refuses a second one, and `Delimiters.register` adds all its characters or none.

`Delimiters.leavesOpen` decides whether a text leaves a literal open, which is how the items of a
list and the body of a group find their end.
-/

namespace Stencil

/-- The kinds of literal that exist. -/
inductive LiteralKind
  | string
  | numeric
  | list
  | parenthesis
  deriving DecidableEq, Repr

/-- The kinds of literal that a delimiter can open. -/
inductive Enclosure
  | quote
  | list
  | group
  deriving DecidableEq, Repr

namespace LiteralKind

/-- The name of a kind. -/
def name : LiteralKind → String
  | .string => "string"
  | .numeric => "numeric"
  | .list => "list"
  | .parenthesis => "parenthesis"

/-- The enclosure of a kind. Numbers start with a digit and have none. -/
def enclosure? : LiteralKind → Option Enclosure
  | .string => some .quote
  | .numeric => none
  | .list => some .list
  | .parenthesis => some .group

end LiteralKind

/-- The kind of literal that an enclosure makes. -/
def Enclosure.kind : Enclosure → LiteralKind
  | .quote => .string
  | .list => .list
  | .group => .parenthesis

/-- How a character opens a literal. -/
structure Delimiter where
  start : Char
  close : Char
  escape : Option Char
  enclosure : Enclosure
  deriving DecidableEq, Repr

/-- A delimiter that opens and closes with one character; nothing nests inside it. -/
def Delimiter.isSymmetric (delimiter : Delimiter) : Bool :=
  delimiter.close == delimiter.start

/-- The delimiters in use, by the character that opens. -/
structure Delimiters where
  table : Table Char Delimiter := { }

namespace Delimiters

/-- The delimiter that a character opens. -/
def find? (delimiters : Delimiters) (c : Char) : Option Delimiter :=
  delimiters.table.find? c

/-- Adds a delimiter whose opening character is free. -/
def add (delimiters : Delimiters) (delimiter : Delimiter) : Result Delimiters :=
  if delimiters.table.contains delimiter.start then .error (.characterInUse delimiter.start)
  else .ok ⟨delimiters.table.insert delimiter.start delimiter⟩

/-- Adds a delimiter for each character of `start`, closed by the character at the same place of
`close`. Either all of them are added or none is. -/
def register (delimiters : Delimiters) (start : String) (close : Option String)
    (kind : LiteralKind) (escape : Option Char) : Result Delimiters :=
  match kind.enclosure?, start.toList, close with
  | none, _, _ => .error (.literalKindNotRegistrable kind.name)
  | some _, [], close => .error (.delimitersUnpaired "" (close.getD ""))
  | some _, first :: _, none => .error (.closeCharacterMissing first)
  | some enclosure, first :: rest, some close =>
    if (first :: rest).length = close.toList.length then
      (List.zipWith (fun opening closing => ⟨opening, closing, escape, enclosure⟩)
        (first :: rest) close.toList).foldlM add delimiters
    else .error (.delimitersUnpaired start close)

/-- No delimiters at all. -/
def empty : Delimiters := { }

/-- Texts between quotes of either kind, escaped by a backslash, lists in square brackets and
groups in parentheses. -/
def standard : Delimiters :=
  ⟨[⟨'"', '"', some '\\', .quote⟩, ⟨'\'', '\'', some '\\', .quote⟩, ⟨'[', ']', none, .list⟩,
    ⟨'(', ')', none, .group⟩].foldl (fun table delimiter => table.insert delimiter.start delimiter)
      .empty⟩

/-- Whether a character closes a literal that another character opens. -/
def closesNesting (delimiters : Delimiters) (c : Char) : Bool :=
  delimiters.table.entries.any fun (_, delimiter) => !delimiter.isSymmetric && delimiter.close == c

/-- Whether a character escapes the next one in some literal. -/
def isEscape (delimiters : Delimiters) (c : Char) : Bool :=
  delimiters.table.entries.any fun (_, delimiter) => delimiter.escape == some c

/-- The literals that are open at some place of a text, the innermost first, and whether the next
character is escaped. -/
structure Openings where
  stack : List Delimiter := []
  escaped : Bool := false
  deriving DecidableEq, Repr

/-- The openings after one more character of `text`. Outside symmetric delimiters any escape
character escapes the next one; inside them only their own does, and nothing opens. -/
def advance (delimiters : Delimiters) (text : String) (openings : Openings) (c : Char) :
    Except SyntaxFault Openings :=
  match openings with
  | ⟨stack, true⟩ => .ok ⟨stack, false⟩
  | ⟨stack, false⟩ =>
    let nesting : Except SyntaxFault Openings :=
      if delimiters.isEscape c then .ok ⟨stack, true⟩
      else
        match delimiters.find? c with
        | some delimiter => .ok ⟨delimiter :: stack, false⟩
        | none =>
          if delimiters.closesNesting c then
            match stack with
            | top :: outer =>
              if top.close = c then .ok ⟨outer, false⟩ else .error (.unmatchedClose c text)
            | [] => .error (.unmatchedClose c text)
          else .ok ⟨stack, false⟩
    match stack with
    | top :: outer =>
      if top.isSymmetric then
        if top.escape = some c then .ok ⟨stack, true⟩
        else if top.close = c then .ok ⟨outer, false⟩
        else .ok ⟨stack, false⟩
      else nesting
    | [] => nesting

/-- Whether a text leaves a literal open. -/
def leavesOpen (delimiters : Delimiters) (text : String) : Except SyntaxFault Bool := do
  let openings ← text.toList.foldlM (delimiters.advance text) { }
  return !openings.stack.isEmpty

end Delimiters

end Stencil
