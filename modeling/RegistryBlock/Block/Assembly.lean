import RegistryBlock.Block.Basic
import RegistryBlock.Journal.Record
import RegistryBlock.Package.Needed

/-!
# Assembling a block

From the files that belong to a block, all files of the project and the project's package manifest
to the block itself.
-/

namespace RegistryBlock

def BlockFile.ofKey (settings : AliasSettings) (key content : String) (fromSourceRoot : Bool) :
    BlockFile :=
  let placement := Placement.ofKey settings key fromSourceRoot
  { path := "./" ++ key, content, type := placement.role.label, target := placement.target }

/-- The entry of a project file. A path below the directory of the sources is written without it.
In a project without that directory, pages and the paths of the aliases themselves count as
sources. -/
def BlockFile.ofSource (settings : AliasSettings) (file : SourceFile) : BlockFile :=
  if settings.sourceRoot then
    match Text.dropFront? "src/".toList file.key.toList with
    | some rest => ofKey settings (Path.key (String.ofList rest)) file.content true
    | none => ofKey settings (Path.key file.key) file.content false
  else
    ofKey settings (Path.key file.key) file.content
      (file.key ∈ Kit.aliasedPaths settings || Text.startsWith "app/".toList file.key.toList)

namespace Block

def choiceRecord (declared kept : Manifest) : Journal.Record :=
  ⟨some "dependencies", .debug, "Kept " ++ toString kept.size ++ " of " ++ toString declared.size ++
    " manifest dependencies"⟩

def summaryRecord (block : Block) : Journal.Record :=
  ⟨some "block", .info, "Block " ++ block.name ++ ": " ++ toString block.files.length ++
    " files, " ++ toString (block.dependencies.length + block.devDependencies.length) ++
    " dependencies, " ++ toString block.registryDependencies.length ++ " registry dependencies"⟩

def ofFiles (name : String) (settings : AliasSettings) (members project : List SourceFile)
    (manifest : Manifest) : Block :=
  let references := Kit.references settings project
  let kept := manifest.needed settings (importedPackages members) references
  { name
    dependencies := kept.dependencies
    devDependencies := kept.devDependencies
    registryDependencies := references
    files := members.map (BlockFile.ofSource settings) }

/-- The block of the given files of a project. The manifest is read before anything else. -/
def assemble (name : String) (settings : AliasSettings) (members project : List SourceFile)
    (manifestText : String) : Except Manifest.Error (Block × List Journal.Record) :=
  match Manifest.parse manifestText with
  | .error e => .error e
  | .ok manifest =>
    let block := ofFiles name settings members project manifest
    let kept : Manifest := ⟨block.dependencies, block.devDependencies⟩
    .ok (block, [choiceRecord manifest kept, block.summaryRecord])

end Block

end RegistryBlock
