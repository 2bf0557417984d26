import Stencil.Error

/-! # Identifiers

A dotted path: a name, and the attributes taken from its value one after the other. Names are made
of ASCII letters, digits and the underscore, and do not start with a digit.
-/

namespace Stencil

/-- A name and the attributes taken from its value. -/
structure Identifier where
  name : String
  attributes : List String
  deriving DecidableEq, Repr

namespace Identifier

/-- Whether a character may stand in a name; a digit may not stand first. -/
def isNameChar (first : Bool) (c : Char) : Bool :=
  c == '_' || c.isAlpha || (!first && c.isDigit)

/-- The first character of a text that may not stand at its place in a name. -/
def misplaced? : List Char → Option Char
  | [] => none
  | first :: rest =>
    if isNameChar true first then rest.find? fun c => !isNameChar false c else some first

/-- Whether a text is a single name. -/
def isName (text : String) : Bool :=
  !text.isEmpty && (misplaced? text.toList).isNone

/-- The names of the path, the first one first. -/
def segments (identifier : Identifier) : List String :=
  identifier.name :: identifier.attributes

/-- The path with a point between its names. -/
def toText (identifier : Identifier) : String :=
  ".".intercalate identifier.segments

/-- What is wrong with one segment of a path. -/
def segmentFault? (path : String) (segment : List Char) : Option SyntaxFault :=
  if segment.isEmpty then some (.emptySegment path)
  else (misplaced? segment).map .unexpectedCharacter

/-- Reads a dotted path. Of several bad segments the last one decides the fault. -/
def ofPath (path : String) : Except SyntaxFault Identifier :=
  let segments := path.toList.splitOn '.'
  match segments.reverse.findSome? (segmentFault? path) with
  | some fault => .error fault
  | none =>
    match segments.map String.ofList with
    | [] => .error (.emptySegment path)
    | name :: attributes => .ok ⟨name, attributes⟩

end Identifier

end Stencil
