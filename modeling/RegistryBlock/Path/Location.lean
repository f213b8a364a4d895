import RegistryBlock.Text.Basic

/-!
# Written paths and locations

A `WrittenPath` is a path as someone wrote it, kept apart only in its names: `.` and doubled
slashes are gone, `..` is kept. A `Location` is a place in a file tree, given by the names on the
way from the root. `WrittenPath.resolve` leads from the first to the second.
No name stands for a home directory: a `~` in front is a name like any other, so a path from someone
who means his home by it has to be written out before it comes here.
-/

namespace RegistryBlock

/-- A place in a file tree: the names on the way from the root. -/
structure Location where
  names : List String
deriving DecidableEq, Repr

namespace Location

def root : Location := ⟨[]⟩

def child (loc : Location) (name : String) : Location := ⟨loc.names ++ [name]⟩

/-- The directory that holds the location; the root holds itself. -/
def parent (loc : Location) : Location := ⟨loc.names.dropLast⟩

theorem parent_child (loc : Location) (name : String) : (loc.child name).parent = loc := by
  rw [parent, child, List.dropLast_concat]

def name (loc : Location) : String := loc.names.getLast?.getD ""

def text (loc : Location) : String := "/" ++ "/".intercalate loc.names

/-- The names that lead from `base` down to `loc`, if it lies there. -/
def below? (base loc : Location) : Option (List String) :=
  Text.dropFront? base.names loc.names

theorem below?_eq_some_iff {base loc : Location} {names : List String} :
    base.below? loc = some names ↔ loc.names = base.names ++ names :=
  Text.dropFront?_eq_some_iff

/-- The path of names seen from the directory they start in. -/
def relativeText (names : List String) : String :=
  if names.isEmpty then "." else "/".intercalate names

/-- Where a row of names leads from a location: `..` climbs, and the root is its own parent. -/
def follow (loc : Location) : List String → Location
  | [] => loc
  | name :: names =>
    if name = ".." then loc.parent.follow names else (loc.child name).follow names

end Location

/-- A path as written. `opening` holds the slashes it begins with, at most two. -/
structure WrittenPath where
  opening : String
  names : List String
deriving DecidableEq, Repr

namespace WrittenPath

/-- Reads a path: names that are empty or `.` say nothing and are dropped. -/
def ofString (s : String) : WrittenPath :=
  let slashes := (s.toList.takeWhile (· == '/')).length
  { opening := if slashes = 0 then "" else if slashes = 2 then "//" else "/"
    names := ((Text.split '/' s.toList).map String.ofList).filter
      fun name => name != "" && name != "." }

def ofLocation (loc : Location) : WrittenPath := ⟨"/", loc.names⟩

/-- The path as text; the empty path is written `.`. -/
def text (p : WrittenPath) : String :=
  if p.opening = "" ∧ p.names = [] then "." else p.opening ++ "/".intercalate p.names

def isAbsolute (p : WrittenPath) : Bool := p.opening != ""

/-- A path seen from a base: an absolute path stands for itself. -/
def append (base p : WrittenPath) : WrittenPath :=
  if p.isAbsolute then p else { base with names := base.names ++ p.names }

def name (p : WrittenPath) : String := p.names.getLast?.getD ""

def parent (p : WrittenPath) : WrittenPath := { p with names := p.names.dropLast }

def child (p : WrittenPath) (name : String) : WrittenPath := { p with names := p.names ++ [name] }

/-- The location that the path denotes when it is written in the directory `cwd`. -/
def resolve (cwd : Location) (p : WrittenPath) : Location :=
  (if p.isAbsolute then Location.root else cwd).follow p.names

end WrittenPath

end RegistryBlock
