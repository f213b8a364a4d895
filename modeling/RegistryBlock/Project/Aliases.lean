import RegistryBlock.Alias.Settings
import RegistryBlock.Path.Ancestors
import RegistryBlock.Project.Failure

/-!
# Aliases of a project

Aliases and registries are set in a file `components.json` of the project or of a directory above
it; the nearest one counts.
-/

namespace RegistryBlock.AliasSettings

def fileName : String := "components.json"

/-- The nearest file with aliases at or above a location. Directories of that name do not count. To
find the location of a path, a home directory at its front has to be written out first. -/
def nearestFile? (tree : Tree) (start : Location) : Option Location :=
  (start.ancestors.map (·.child fileName)).find? tree.isFileAt

/-- Whether a path leads to a directory that keeps its sources under `src/`. -/
def hasSourceRoot (tree : Tree) (path : WrittenPath) : Bool := tree.leadsToDir (path.child "src")

/-- An alias, which must not be empty. -/
def aliasOf? : Option Json.Value → Option String
  | some (.str s) => if s = "" then none else some s
  | _ => none

def ofJson (members : List (String × Json.Value)) (sourceRoot : Bool) : AliasSettings :=
  let aliases := ((members.lookup "aliases").map Json.Value.members).getD []
  let slot (s : Slot) := aliasOf? (aliases.lookup s.name)
  { components := slot .components
    utils := slot .utils
    ui := slot .ui
    lib := slot .lib
    hooks := slot .hooks
    sourceRoot
    registries := ((members.lookup "registries").map Json.Value.keys).getD [] }

def load (tree : Tree) (path : WrittenPath) (sourceRoot : Bool) : Except Failure AliasSettings :=
  match nearestFile? tree (path.resolve .root) with
  | none => .error (.settings .noComponents)
  | some file => do
    let text ← Failure.ofStorage file (tree.readText file)
    match Json.parse text with
    | .error cause => .error (.settings (.malformedComponents file cause))
    | .ok (.obj members) => .ok (ofJson members sourceRoot)
    | .ok _ => .error (.settings .componentsNoObject)

end RegistryBlock.AliasSettings
