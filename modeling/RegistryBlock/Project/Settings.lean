import RegistryBlock.Decimal.Style
import RegistryBlock.Project.Failure
import RegistryBlock.Text.Blank
import RegistryBlock.Yaml.Value

/-!
# Project settings

A project may hold a file `.blockgen.yml` with the name of the block, the place it is written to,
and patterns of paths to leave out. Values of the wrong type count as absent.
What the text of the file stands for is left to a reader of YAML.
-/

namespace RegistryBlock

structure Settings where
  root : Location
  name : Option String := none
  output : Option WrittenPath := none
  excludes : List String := []
deriving DecidableEq, Repr

namespace Settings

def fileName : String := ".blockgen.yml"

/-- The settings file for a path: in it if it is a directory, else beside it. If the path begins
with a home directory, it is written out already. -/
def fileFor (tree : Tree) (path : WrittenPath) : Location :=
  if tree.leadsToDir path then (path.child fileName).resolve .root
  else if path.name = fileName then path.resolve .root
  else (path.parent.child fileName).resolve .root

/-- A text, or a number as it is written shortest. -/
def textOf? : Yaml.Value → Option String
  | .str s => some s
  | .int n => some (toString n)
  | .float x => some (({} : Decimal.Style).render x)
  | _ => none

def itemOf? : Yaml.Value → Option String
  | .bool b => some (if b then "True" else "False")
  | v => textOf? v

/-- A list of patterns, or a single one. -/
def patternsOf : Yaml.Value → List String
  | .str s => [s]
  | .seq items => items.filterMap itemOf?
  | .bytes l => l.map fun b => toString b.toNat
  | _ => []

def ofYaml (root : Location) (v : Yaml.Value) : Settings :=
  { root
    name := (v.get? "name").bind textOf?
    output := ((v.get? "output").bind textOf?).bind fun s =>
      if s = "" then none else some ((WrittenPath.ofLocation root).append (.ofString s))
    excludes := ((v.get? "exclude_paths").map patternsOf).getD [] }

/-- Reads the text of a settings file. A text without content has no settings. -/
def parse (yaml : Yaml.Reader) (root : Location) (text : String) : Except Failure Settings :=
  if (Text.trim text.toList).isEmpty then .ok { root }
  else
    match yaml text with
    | .ok .null => .ok { root }
    | .ok (.map entries) => .ok (ofYaml root (.map entries))
    | .ok _ => .error (.settings .noMapping)
    | .error .scalar => .error .scalar
    | .error (.malformed words) => .error (.settings (.malformed words))

def load (tree : Tree) (path : WrittenPath) (yaml : Yaml.Reader := Yaml.reader) :
    Except Failure Settings :=
  let file := fileFor tree path
  if tree.holds file then do
    parse yaml file.parent (← Failure.ofStorage file (tree.readText file))
  else .ok { root := file.parent }

end Settings

end RegistryBlock
