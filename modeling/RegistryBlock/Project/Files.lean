import RegistryBlock.Ignore.Rule
import RegistryBlock.Project.Settings
import RegistryBlock.Project.Trace
import RegistryBlock.Source

/-!
# Files of a project

The files of a project are those of its tree that are text, that no rule leaves out, and that do
not bear the name of generated or installed files. A directory that is left out takes everything in
it along.
-/

namespace RegistryBlock

/-- Directories with generated and installed files. -/
def excludedDirectories : List String :=
  ["node_modules", "dist", "fonts", "build", "public", "static", ".next", ".git"]

/-- Files that describe the project and do not belong to its source. -/
def excludedFiles : List String :=
  [".DS_Store", "next-env.d.ts", "package-lock.json", "yarn.lock", "pnpm-lock.yaml", "bun.lockb",
    "package.json", "tailwind.config.ts", "tailwind.config.js", "components.json", "favicon.ico",
    ".blockgen.yml"]

/-- The path of an entry of the directory with the given path, which is empty for the project. -/
def below (directory name : String) : String :=
  if directory = "" then name else directory ++ "/" ++ name

namespace Tree

mutual

/-- The files at or below an entry that no rule leaves out, by their paths. The files of a directory
come before those of the directories in it. -/
def eligibleAt (rules : List IgnoreRule) (path name : String) : Tree → List (String × ByteArray)
  | .file bytes =>
    if excludedFiles.contains name || isIgnored rules path.toList false then [] else [(path, bytes)]
  | .dir entries =>
    if excludedDirectories.contains name || isIgnored rules path.toList true then []
    else eligibleAmong rules path false entries ++ eligibleAmong rules path true entries

/-- The files that no rule leaves out at or below the entries of one kind: the directories, or the
files themselves. -/
def eligibleAmong (rules : List IgnoreRule) (directory : String) (directories : Bool) :
    List (String × Tree) → List (String × ByteArray)
  | [] => []
  | (name, tree) :: rest =>
    (if tree.isDir = directories then eligibleAt rules (below directory name) name tree else []) ++
      eligibleAmong rules directory directories rest

end

def eligibleIn (rules : List IgnoreRule) (directory : String) (entries : List (String × Tree)) :
    List (String × ByteArray) :=
  eligibleAmong rules directory false entries ++ eligibleAmong rules directory true entries

def eligible (rules : List IgnoreRule) : Tree → List (String × ByteArray)
  | .dir entries => eligibleIn rules "" entries
  | .file _ => []

end Tree

def SourceFile.ofBytes? (entry : String × ByteArray) : Option SourceFile :=
  (Tree.decode? entry.2).map fun content => ⟨entry.1, content⟩

def SourceFile.sort (files : List SourceFile) : List SourceFile :=
  files.mergeSort fun a b => a.path ≤ b.path

namespace IgnoreRule

def fromIgnoreFile (tree : Tree) (root : Location) : Except Failure (List IgnoreRule) :=
  let file := root.child ".gitignore"
  if tree.holds file then
    (Failure.ofStorage file (tree.readText file)).map ofFile
  else .ok []

/-- The rules in the settings of a directory. Settings that cannot be read have none. -/
def fromSettings (tree : Tree) (root : Location) (yaml : Yaml.Reader) :
    RunM (List IgnoreRule) := do
  match Settings.load tree (.ofLocation root) yaml with
  | .ok settings => return ofExcludes settings.excludes
  | .error (.settings e) =>
    RunM.log "scanner" .warning ("Ignoring exclude_paths: " ++ e.message)
    return []
  | .error failure => throw failure

/-- All rules of a directory, those of its settings last. -/
def load (tree : Tree) (root : Location) (yaml : Yaml.Reader := Yaml.reader) :
    RunM (List IgnoreRule) := do
  let own ← RunM.ofExcept (fromIgnoreFile tree root)
  return own ++ (← fromSettings tree root yaml)

end IgnoreRule

def projectFiles (tree : Tree) (root : Location) (rules : List IgnoreRule) : List SourceFile :=
  SourceFile.sort
    ((((tree.get? root).map (Tree.eligible rules)).getD []).filterMap SourceFile.ofBytes?)

/-- The eligible files of the directory at a location that are not text. -/
def skippedFiles (tree : Tree) (root : Location) (rules : List IgnoreRule) : List String :=
  ((((tree.get? root).map (Tree.eligible rules)).getD []).filter
    fun entry => (SourceFile.ofBytes? entry).isNone).map Prod.fst

/-- Reads the files of the project at a path. Files that are not text are reported in the order of
the walk, the others are sorted. -/
def scanProject (tree : Tree) (path : WrittenPath) (yaml : Yaml.Reader := Yaml.reader) :
    RunM (List SourceFile) := do
  let root := path.resolve .root
  if !tree.holds root then throw (.path (.projectMissing path.text))
  if !tree.isDirAt root then throw (.path (.projectNoDirectory path.text))
  let rules ← IgnoreRule.load tree root yaml
  for skipped in skippedFiles tree root rules do
    RunM.log "scanner" .debug ("Skipping non-text file " ++ skipped)
  let files := projectFiles tree root rules
  RunM.log "scanner" .debug
    ("Scanner discovered " ++ toString files.length ++ " files under " ++ root.text)
  return files

end RegistryBlock
