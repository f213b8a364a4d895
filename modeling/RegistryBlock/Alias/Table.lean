import RegistryBlock.Alias.Settings
import RegistryBlock.Path.Basic

/-!
# Alias tables

An entry of the table maps an alias to a directory of the project. A specifier uses an alias when
it is the alias or goes on after it with a slash. The table of a project lists its aliases longest
first, and ends with the alias `@` for the directory of the sources.
-/

namespace RegistryBlock

def isSlash (c : Char) : Bool := c = '/'

/-- The path behind `@/`, without slashes at its ends, if that leaves anything. -/
def aliasPath? (value : String) : Option (List Char) :=
  match (Text.dropFront? "@/".toList value.toList).map (Text.trimBy isSlash) with
  | some (c :: cs) => some (c :: cs)
  | _ => none

/-- An alias with the directory it stands for. -/
structure AliasEntry where
  name : String
  directory : String
deriving DecidableEq, Repr

namespace AliasEntry

def front (entry : AliasEntry) : List Char :=
  if Text.endsWith ['/'] entry.name.toList then entry.name.toList else entry.name.toList ++ ['/']

/-- The project path that a specifier denotes through this alias, if it uses it. -/
def substitute? (entry : AliasEntry) (specifier : String) : Option String :=
  if specifier = entry.name then some entry.directory
  else
    (Text.dropFront? entry.front specifier.toList).map fun rest =>
      String.ofList (Path.join entry.directory.toList (rest.dropWhile isSlash))

end AliasEntry

/-- The aliases of a project in the order in which they are tried, with the directory that every
other specifier is seen from. -/
structure AliasTable where
  entries : List AliasEntry
  root : String
deriving DecidableEq, Repr

namespace AliasTable

def ofAlias? (settings : AliasSettings) (value : String) : Option AliasEntry :=
  (aliasPath? value).map fun path =>
    { name := String.ofList (Text.dropEndWhile isSlash value.toList)
      directory := settings.rootFront ++ String.ofList path }

/-- The entries of the settings in slot order, and the alias for the directory of the sources. -/
def unsorted (settings : AliasSettings) : List AliasEntry :=
  settings.values.filterMap (ofAlias? settings) ++ [⟨"@", settings.root⟩]

/-- The entries, longest alias first; aliases of one length keep their order. -/
def sort (entries : List AliasEntry) : List AliasEntry :=
  entries.mergeSort fun a b => b.name.length ≤ a.name.length

def ofSettings (settings : AliasSettings) : AliasTable :=
  { entries := sort (unsorted settings), root := settings.root }

end AliasTable

end RegistryBlock
