import RegistryBlock.Command.Run

/-!
# The program

Packages the files of the project in the working directory as a registry block. The paths of the
project's files are read from standard input, one a line, where a slash at the end marks a
directory; everything else is decided by `Command.run`. Git is not called from here, so a run that
needs it ends as it does on a machine without git.
-/

namespace RegistryBlock.Program

def bytes? (path : String) : IO (Option ByteArray) := do
  try
    return some (← IO.FS.readBinFile path)
  catch _ =>
    return none

def gather (tree : Tree) (loc : Location) (directory : Bool) : IO Tree := do
  if directory then
    return if tree.holds loc then tree else tree.set loc .empty
  match ← bytes? loc.text with
  | some bytes => return tree.set loc (.file bytes)
  | none => return tree

partial def lines (input : IO.FS.Stream) : IO (List String) := do
  let line ← input.getLine
  if line.isEmpty then
    return []
  else
    let front := if line.endsWith "\n" then String.ofList line.toList.dropLast else line
    return front :: (← lines input)

/-- The listed files, and the files with aliases of the directories above. -/
def project (directory : Location) : IO Tree := do
  let mut tree ← gather .empty directory true
  for above in directory.ancestors do
    tree ← gather tree (above.child AliasSettings.fileName) false
  for path in ← lines (← IO.getStdin) do
    let loc := (WrittenPath.ofString path).resolve directory
    tree ← gather tree loc (path.endsWith "/")
  return tree

def perform : Change → IO Unit
  | .write loc text => IO.FS.writeFile loc.text text
  | .erase loc => IO.FS.removeDirAll loc.text

def serve (directory : Location) (tree : Tree) (args : List String) : IO UInt32 := do
  let outcome := Command.run { tree, directory, yaml := Yaml.reader } args
  outcome.changes.forM perform
  IO.print outcome.stdout
  IO.eprint outcome.stderr
  match outcome.stop with
  | .exit code => return code.toUInt32
  | .raised failure =>
    IO.eprintln failure.message
    return 1

end RegistryBlock.Program

/-- The program in the directory that the environment names. -/
def main (args : List String) : IO UInt32 := do
  let path := (← IO.getEnv "PWD").getD "/"
  let directory := (RegistryBlock.WrittenPath.ofString path).resolve .root
  let tree ←
    match RegistryBlock.Command.Request.ofArgs args with
    | .ok (.run _) => RegistryBlock.Program.project directory
    | _ => pure .empty
  RegistryBlock.Program.serve directory tree args
