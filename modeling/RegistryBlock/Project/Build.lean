import RegistryBlock.Block.Assembly
import RegistryBlock.History.Changes
import RegistryBlock.Project.Aliases
import RegistryBlock.Project.Files
import RegistryBlock.Reach

/-!
# Building a block

From a project on disk to its block. The seeds are the files of a folder, or the files that changed
since the first commit; the block holds the seeds and everything they import.
-/

namespace RegistryBlock

/-- What to build. -/
structure Order where
  name : Option String := none
  folder : Option String := none
  /-- Whether the seeds are the altered files, and not those of the folder. -/
  altered : Bool := false
deriving DecidableEq, Repr

namespace Order

/-- The folder of an order. Without one it is the project itself. -/
def folderIn (order : Order) (project : Location) : Location :=
  let folder := (order.folder.filter (· ≠ "")).getD "."
  ((WrittenPath.ofLocation project).append (.ofString folder)).resolve .root

/-- The name of the block: the one that is asked for, that of the settings, or the folder's. -/
def blockName (order : Order) (settings : Settings) (folder : Location) : String :=
  ((order.name.filter (· ≠ "")).or (settings.name.filter (· ≠ ""))).getD folder.name

end Order

def filesIn (names : List String) (files : List SourceFile) : List SourceFile :=
  if names.isEmpty then files
  else
    let front := Location.relativeText names
    files.filter fun file =>
      file.key = front || Text.startsWith (front ++ "/").toList file.key.toList

/-- The files below the folder at a location, which has to be a directory of the project. -/
def folderFiles (tree : Tree) (project folder : Location) (files : List SourceFile) :
    Except PathError (List SourceFile) :=
  if tree.isDirAt folder then
    match project.below? folder with
    | some names => .ok (filesIn names files)
    | none => .error (.folderOutside folder)
  else .error (.folderNoDirectory folder)

def manifestName : String := "package.json"

def manifestText (tree : Tree) (project : Location) : Except Failure String :=
  let file := project.child manifestName
  if tree.isFileAt file then Failure.ofStorage file (tree.readText file)
  else .error (.path (.manifestMissing file))

def seeds (git : Git) (tree : Tree) (project folder : Location) (altered : Bool)
    (files : List SourceFile) : RunM (List SourceFile) :=
  if altered then History.alteredFiles git tree (.ofLocation project) files
  else
    match folderFiles tree project folder files with
    | .ok found => pure found
    | .error e => throw (.path e)

/-- Builds the block of the project at a path, whose home directory, if it begins with one, is
written out. The manifest and the aliases are read once the seeds are known. -/
def build (git : Git) (tree : Tree) (path : WrittenPath) (order : Order)
    (yaml : Yaml.Reader := Yaml.reader) : RunM Block := do
  let project := path.resolve .root
  let settings ← RunM.ofExcept (Settings.load tree (.ofLocation project) yaml)
  RunM.log "orchestrator" .info ("Building registry block for " ++ project.text)
  let files ← scanProject tree (.ofLocation project) yaml
  RunM.log "orchestrator" .debug ("Scanner discovered " ++ toString files.length ++ " files")
  let folder := order.folderIn project
  let start ← seeds git tree project folder order.altered files
  let manifest ← RunM.ofExcept (manifestText tree project)
  let aliases ← RunM.ofExcept (AliasSettings.load tree (.ofLocation project)
    (AliasSettings.hasSourceRoot tree (.ofLocation project)))
  let visits := (ImportMap.mk files (.ofSettings aliases)).visitFrom start
  RunM.logAll (visits.flatMap Visit.records)
  RunM.log "orchestrator" .info ("Closure grew " ++ toString start.length ++ " seed files to " ++
    toString visits.length ++ " files")
  match Block.assemble (order.blockName settings folder) aliases (visits.map Visit.file) files
      manifest with
  | .ok (block, records) =>
    RunM.logAll records
    return block
  | .error e => throw (.manifest e)

end RegistryBlock
