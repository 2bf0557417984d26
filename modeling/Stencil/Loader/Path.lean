/-! # Paths

A path is a text with parts between slashes. `Path.components` reads a path the way programs see it,
and `Path.push` writes one: it goes down from a path by one more part.
-/

namespace Stencil

/-- What a part of a path stands for. -/
inductive Component
  | root
  | current
  | parent
  | normal (name : String)
  deriving DecidableEq, Repr

namespace Path

/-- The parts between the slashes of a path, empty ones among them. -/
def parts (path : String) : List String :=
  (path.toList.splitOn '/').map String.ofList

/-- Whether a path starts at the root. -/
def isAbsolute (path : String) : Bool :=
  path.toList.head? == some '/'

/-- What a part stands for; an empty one and a single point stand for nothing. -/
def component? (part : String) : Option Component :=
  if part = "" ∨ part = "." then none
  else if part = ".." then some .parent
  else some (.normal part)

/-- The components of a path. Only at its front a slash or a single point is a component. -/
def components (path : String) : List Component :=
  let front :=
    if isAbsolute path then [.root]
    else if (parts path).head? = some "." then [.current]
    else []
  front ++ (parts path).filterMap component?

/-- A path with one more part behind it. An absolute part takes the place of the path. -/
def push (path part : String) : String :=
  if isAbsolute part then part
  else if path = "" ∨ path.toList.getLast? = some '/' then path ++ part
  else path ++ "/" ++ part

end Path

end Stencil
