import RegistryBlock.Alias.Settings
import RegistryBlock.Distinct
import RegistryBlock.Source

/-!
# Stock components

The components of the UI kit are installed from a registry of their own. A file of the project
that lies in the directory of the `ui` alias and bears the name of a stock component stands for it,
and the block refers to the component in place of the file.
-/

namespace RegistryBlock.Kit

def defaultNamespace : String := "@shadcn"

def components : List String := [
  "accordion", "alert", "alert-dialog", "aspect-ratio", "avatar", "badge", "breadcrumb", "button",
  "button-group", "calendar", "card", "carousel", "chart", "checkbox", "collapsible", "combobox",
  "command", "context-menu", "data-table", "date-picker", "dialog", "drawer", "dropdown-menu",
  "empty", "field", "form", "hover-card", "input", "input-group", "input-otp", "item", "kbd",
  "label", "menubar", "native-select", "navigation-menu", "pagination", "popover", "progress",
  "radio-group", "resizable", "scroll-area", "select", "separator", "sheet", "sidebar", "skeleton",
  "slider", "sonner", "spinner", "switch", "table", "tabs", "textarea", "toast", "toggle",
  "toggle-group", "tooltip", "typography"]

/-- The namespace of references: that of the kit if the project has its registry, else that of the
project's first registry. -/
def namespace? (settings : AliasSettings) : Option String :=
  if defaultNamespace ∈ settings.registries then some defaultNamespace
  else settings.registries.head?

/-- The aliases with the first `@/` taken out. -/
def aliasedPaths (settings : AliasSettings) : List String :=
  settings.values.map fun value => String.ofList (Text.eraseFirst "@/".toList value.toList)

/-- The directory of the `ui` alias. -/
def directory? (settings : AliasSettings) : Option (List Char) :=
  settings.ui.bind fun value =>
    (Text.dropFront? "@/".toList value.toList).map fun rest =>
      settings.rootFront.toList ++ Text.trimBy (· = '/') rest

def componentName? (path : List Char) : Option String :=
  let name := String.ofList (Path.stem path)
  if String.ofList (Path.extension path) ∈ [".tsx", ".jsx"] ∧ name ∈ components then some name
  else none

/-- The stock component that a file of the project stands for. -/
def component? (settings : AliasSettings) (path : String) : Option String :=
  match directory? settings with
  | none | some [] => none
  | some directory =>
    let key := (Path.key path).toList
    if Text.startsWith (directory ++ ['/']) key then componentName? key else none

def reference (settings : AliasSettings) (component : String) : String :=
  match namespace? settings with
  | some name => if name = "" then component else name ++ "/" ++ component
  | none => component

/-- The references to the stock components among the files, each once. -/
def references (settings : AliasSettings) (files : List SourceFile) : List String :=
  distinctBy id []
    ((files.filterMap fun file => component? settings file.key).map (reference settings))

end RegistryBlock.Kit
