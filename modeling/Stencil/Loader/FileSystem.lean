import Stencil.Loader
import Stencil.Loader.Path

/-! # Templates in files

The name of a template is read as a relative path below a root. Its parts are pushed onto the path
of the root one by one, and the file that the whole path leads to is the template. A name with a
component that leads to the root or to a parent names nothing, so that no name leads out of the
directory: a file system itself follows such components.
-/

namespace Stencil

/-- What stands at a place of a file system. -/
inductive Entry
  | directory
  | file (content : ByteArray)

/-- A file system without links: what stands at the places that the names of directories and files
lead to from the root, and the place where relative paths start. -/
structure FileSystem where
  entryAt : List String → Option Entry
  current : List String := []

namespace FileSystem

/-- The place that a part of a path leads to. -/
def enter (place : List String) (part : String) : List String :=
  match Path.component? part with
  | some (.normal name) => place ++ [name]
  | some .parent => place.dropLast
  | _ => place

/-- Follows a part of a path, which is possible from a directory only. -/
def follow? (files : FileSystem) (place : List String) (part : String) : Option (List String) :=
  match files.entryAt place with
  | some .directory => some (enter place part)
  | _ => none

/-- The place that a path leads to. There may be nothing at its end. -/
def locate? (files : FileSystem) (path : String) : Option (List String) :=
  (Path.parts path).foldlM files.follow? (if Path.isAbsolute path then [] else files.current)

/-- The content of the file that a path leads to. -/
def content? (files : FileSystem) (path : String) : Option ByteArray :=
  match (files.locate? path).bind files.entryAt with
  | some (.file content) => some content
  | _ => none

/-- The path that a component leads to, unless it may lead upwards. -/
def descend? (path : String) : Component → Option String
  | .normal part => some (Path.push path part)
  | .current => some path
  | .root | .parent => none

/-- The path that a name stands for below a root, unless the name may lead out of it. -/
def resolve? (root name : String) : Option String :=
  (Path.components name).foldlM descend? root

/-- The files below a root as a loader. It fails for a file that is not UTF-8. -/
def load (files : FileSystem) (root : String) : Loader := fun name =>
  match resolve? root name with
  | none => .ok none
  | some path =>
    match files.content? path with
    | none => .ok none
    | some bytes =>
      match String.fromUTF8? bytes with
      | some text => .ok (some text)
      | none => .error (.unreadable path "stream did not contain valid UTF-8")

/-- The file system of some files, each with the names that lead to it, and of the directories that
they need. Of two files at one place the first one counts. -/
def ofFiles (files : List (List String × ByteArray)) : FileSystem where
  entryAt place :=
    match files.find? fun file => file.1 == place with
    | some file => some (.file file.2)
    | none =>
      if place = [] ∨ files.any (fun file => place.isPrefixOf file.1) then some .directory
      else none

end FileSystem

end Stencil
