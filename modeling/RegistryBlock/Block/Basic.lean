import RegistryBlock.Json.Writer
import RegistryBlock.Role

/-!
# Registry blocks

A block bundles files with the packages and components they need. As a document it is a JSON object
with a fixed order of keys; the key `target` of a file is left out when there is no target.
-/

namespace RegistryBlock

structure BlockFile where
  path : String
  content : String
  type : String
  target : Option String := none
deriving DecidableEq, Repr

/-- A bundle of files with what they need. -/
structure Block where
  name : String
  type : String := Role.block.label
  dependencies : List String := []
  devDependencies : List String := []
  registryDependencies : List String := []
  files : List BlockFile := []
  tailwind : List (String × Json.Value) := []
  cssVars : List (String × Json.Value) := []
  extra : List (String × Json.Value) := []

def BlockFile.toJson (file : BlockFile) : Json.Value :=
  .obj ([("path", .str file.path), ("content", .str file.content), ("type", .str file.type)] ++
    (file.target.map fun target => ("target", Json.Value.str target)).toList)

namespace Block

def namesToJson (names : List String) : Json.Value := .arr (names.map .str)

def toJson (block : Block) : Json.Value :=
  .obj [
    ("name", .str block.name),
    ("type", .str block.type),
    ("dependencies", namesToJson block.dependencies),
    ("devDependencies", namesToJson block.devDependencies),
    ("registryDependencies", namesToJson block.registryDependencies),
    ("files", .arr (block.files.map BlockFile.toJson)),
    ("tailwind", .obj block.tailwind),
    ("cssVars", .obj block.cssVars),
    ("meta", .obj block.extra)]

def render (layout : Json.Layout) (block : Block) : String := block.toJson.render layout

end Block

end RegistryBlock
