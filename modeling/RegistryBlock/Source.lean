import RegistryBlock.Path.Basic

/-!
# Source files

A project file as it was read. Files are told apart by their keys, not by their paths as written.
-/

namespace RegistryBlock

structure SourceFile where
  path : String
  content : String
deriving DecidableEq, Repr

namespace SourceFile

def key (file : SourceFile) : String := Path.key file.path

def find? (files : List SourceFile) (key : String) : Option SourceFile :=
  files.find? fun file => file.key = key

theorem key_of_find?_eq_some {files : List SourceFile} {key : String} {file : SourceFile}
    (h : find? files key = some file) : file.key = key := by
  simpa using List.find?_some h

theorem mem_of_find?_eq_some {files : List SourceFile} {key : String} {file : SourceFile}
    (h : find? files key = some file) : file ∈ files :=
  List.mem_of_find?_eq_some h

theorem find?_isSome_iff {files : List SourceFile} {key : String} :
    (find? files key).isSome = true ↔ key ∈ files.map SourceFile.key := by
  simp [find?, List.find?_isSome]

end SourceFile

end RegistryBlock
