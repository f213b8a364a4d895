/-!
# Alias settings

A project may give aliases to the directories that hold its parts, name the registries it installs
from, and keep its sources under `src/`.
-/

namespace RegistryBlock

inductive Slot where
  | components
  | utils
  | ui
  | lib
  | hooks
deriving DecidableEq, Repr

/-- The slots in the order in which aliases are listed. -/
def Slot.all : List Slot := [.components, .utils, .ui, .lib, .hooks]

def Slot.name : Slot → String
  | components => "components"
  | utils => "utils"
  | ui => "ui"
  | lib => "lib"
  | hooks => "hooks"

/-- The aliases of a project, with the names of its registries in order. -/
structure AliasSettings where
  components : Option String := none
  utils : Option String := none
  ui : Option String := none
  lib : Option String := none
  hooks : Option String := none
  /-- Whether the sources of the project lie under `src/`. -/
  sourceRoot : Bool := false
  registries : List String := []
deriving DecidableEq, Repr

namespace AliasSettings

def get? (settings : AliasSettings) : Slot → Option String
  | .components => settings.components
  | .utils => settings.utils
  | .ui => settings.ui
  | .lib => settings.lib
  | .hooks => settings.hooks

def values (settings : AliasSettings) : List String := Slot.all.filterMap settings.get?

/-- The directory of the sources, empty when they lie in the project itself. -/
def root (settings : AliasSettings) : String := if settings.sourceRoot then "src" else ""

/-- What stands before the path of a source file. -/
def rootFront (settings : AliasSettings) : String := if settings.sourceRoot then "src/" else ""

end AliasSettings

end RegistryBlock
