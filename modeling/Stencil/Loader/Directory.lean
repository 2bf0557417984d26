import Stencil.Loader.FileSystem

/-! # Templates below a directory

A file system that is known from a directory downwards only.
-/

namespace Stencil

/-- The files below a directory: the content of each under the names that lead to it. -/
structure Directory where
  path : String
  files : List (List String × ByteArray)

namespace Directory

/-- The place of the directory. -/
def place (directory : Directory) : List String :=
  (Path.parts directory.path).foldl FileSystem.enter []

/-- The file system that has these files and no other ones. -/
def fileSystem (directory : Directory) : FileSystem :=
  .ofFiles (directory.files.map fun file => (directory.place ++ file.1, file.2))

/-- The directory as a loader. -/
def load (directory : Directory) : Loader :=
  directory.fileSystem.load directory.path

end Directory

end Stencil
