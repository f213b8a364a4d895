import RegistryBlock.Path.Location
import RegistryBlock.Text.Lines

/-!
# File trees

A tree of directories with files of bytes at its leaves. Paths are followed as a file system
follows them: every name but the last has to be a directory, and `..` leads to the parent of the
directory it stands in.
-/

namespace RegistryBlock

inductive Tree where
  | file (bytes : ByteArray)
  | dir (entries : List (String × Tree))

inductive Tree.Fault where
  | missing
  | isDirectory
  | notDirectory
  | undecodable
deriving DecidableEq, Repr

namespace Tree

def empty : Tree := .dir []

def isDir : Tree → Bool
  | dir _ => true
  | file _ => false

def entry? (tree : Tree) (name : String) : Option Tree :=
  match tree with
  | dir entries => entries.lookup name
  | file _ => none

def descend? (tree : Tree) : List String → Option Tree
  | [] => some tree
  | name :: names => (tree.entry? name).bind (·.descend? names)

def get? (tree : Tree) (loc : Location) : Option Tree := tree.descend? loc.names

def holds (tree : Tree) (loc : Location) : Bool := (tree.get? loc).isSome

def isDirAt (tree : Tree) (loc : Location) : Bool := ((tree.get? loc).map isDir).getD false

def isFileAt (tree : Tree) (loc : Location) : Bool := ((tree.get? loc).map (!isDir ·)).getD false

def follow (tree : Tree) (loc : Location) : List String → Except Fault Location
  | [] => if tree.holds loc then .ok loc else .error .missing
  | name :: names =>
    match tree.get? loc with
    | none => .error .missing
    | some (file _) => .error .notDirectory
    | some (dir _) =>
      if name = ".." then tree.follow loc.parent names else tree.follow (loc.child name) names

def locate (tree : Tree) (path : WrittenPath) : Except Fault Location :=
  tree.follow .root path.names

def leadsToDir (tree : Tree) (path : WrittenPath) : Bool :=
  match tree.locate path with
  | .ok loc => tree.isDirAt loc
  | .error _ => false

/-- The text of some bytes, with every line ended by a line feed. -/
def decode? (bytes : ByteArray) : Option String :=
  (String.fromUTF8? bytes).map fun s => String.ofList (Text.unifyNewlines s.toList)

def readText (tree : Tree) (loc : Location) : Except Fault String :=
  match tree.follow .root loc.names with
  | .error fault => .error fault
  | .ok _ =>
    match tree.get? loc with
    | some (file bytes) =>
      match decode? bytes with
      | some text => .ok text
      | none => .error .undecodable
    | _ => .error .isDirectory

/-- The entries with one of them set: in its place if the name is there, else at the end. -/
def setEntry (entries : List (String × Tree)) (name : String) (tree : Tree) :
    List (String × Tree) :=
  match entries with
  | [] => [(name, tree)]
  | (other, old) :: rest =>
    if other = name then (other, tree) :: rest else (other, old) :: setEntry rest name tree

/-- The tree with `new` at the end of some names. Directories on the way are made as needed, also
in the place of files. -/
def put (tree : Tree) (new : Tree) : List String → Tree
  | [] => new
  | name :: names =>
    let entries :=
      match tree with
      | dir entries => entries
      | file _ => []
    dir (setEntry entries name (((entries.lookup name).getD empty).put new names))

def set (tree : Tree) (loc : Location) (new : Tree) : Tree := tree.put new loc.names

def cut (tree : Tree) : List String → Tree
  | [] => empty
  | [name] =>
    match tree with
    | dir entries => dir (entries.filter (·.1 ≠ name))
    | file bytes => file bytes
  | name :: next :: names =>
    match tree with
    | dir entries =>
      match entries.lookup name with
      | some inner => dir (setEntry entries name (inner.cut (next :: names)))
      | none => dir entries
    | file bytes => file bytes

def erase (tree : Tree) (loc : Location) : Tree := tree.cut loc.names

/-- The location that a path names for writing a file: its parent has to be a directory, and it
must not be one itself. -/
def writable (tree : Tree) (path : WrittenPath) : Except Fault Location :=
  match path.names.getLast? with
  | none => .error .isDirectory
  | some name =>
    match tree.follow .root path.names.dropLast with
    | .error fault => .error fault
    | .ok parent =>
      if tree.isDirAt parent then
        let loc := if name = ".." then parent.parent else parent.child name
        if tree.isDirAt loc then .error .isDirectory else .ok loc
      else .error .notDirectory

end Tree

inductive Change where
  | write (loc : Location) (text : String)
  | erase (loc : Location)
deriving DecidableEq, Repr

namespace Change

def apply (tree : Tree) : Change → Tree
  | write loc text => tree.set loc (.file text.toUTF8)
  | erase loc => tree.erase loc

def applyAll (tree : Tree) (changes : List Change) : Tree := changes.foldl apply tree

end Change

end RegistryBlock
