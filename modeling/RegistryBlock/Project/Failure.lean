import RegistryBlock.History.Git
import RegistryBlock.Package.Manifest
import RegistryBlock.Tree.Basic

/-!
# Failures of a run

Everything that can stop a run. The program describes most failures itself; a refusal of the file
system and a scalar without value are passed on as they are.
-/

namespace RegistryBlock

inductive SettingsError where
  /-- The file is not YAML. The words are those of the reader, if it has any. -/
  | malformed (words : Option String)
  | noMapping
  | noComponents
  | malformedComponents (loc : Location) (cause : Json.Error)
  | componentsNoObject
deriving DecidableEq, Repr

def SettingsError.message : SettingsError → String
  | malformed words =>
    "Failed to parse .blockgen.yml" ++ (words.map fun words => ": " ++ words).getD ""
  | noMapping => ".blockgen.yml must contain a mapping at the root"
  | noComponents => "Components manifest (components.json) not found"
  | malformedComponents loc cause => "Failed to parse " ++ loc.text ++ ": " ++ cause.message
  | componentsNoObject => "components.json must contain an object at the root"

/-- A path that is not what it has to be. -/
inductive PathError where
  | projectMissing (path : String)
  | projectNoDirectory (path : String)
  | folderNoDirectory (loc : Location)
  | folderOutside (loc : Location)
  | manifestMissing (loc : Location)
deriving DecidableEq, Repr

namespace PathError

/-- Whether something is missing, and not of the wrong kind. -/
def isMissing : PathError → Bool
  | projectMissing _ | manifestMissing _ => true
  | _ => false

def message : PathError → String
  | projectMissing path => "Project path not found: " ++ path
  | projectNoDirectory path => "Project path is not a directory: " ++ path
  | folderNoDirectory loc => "Folder path is not a directory: " ++ loc.text
  | folderOutside loc => "Folder path is outside the project: " ++ loc.text
  | manifestMissing loc => "Package manifest not found: " ++ loc.text

end PathError

/-- What stopped a run. -/
inductive Failure where
  | settings (e : SettingsError)
  | manifest (e : Manifest.Error)
  | git (e : Git.Error)
  | path (e : PathError)
  /-- The file system refused to read or write. -/
  | storage (fault : Tree.Fault) (path : String)
  /-- A scalar of the settings has no value. -/
  | scalar
deriving DecidableEq, Repr

def Tree.Fault.message (fault : Tree.Fault) (path : String) : String :=
  match fault with
  | .missing => "[Errno 2] No such file or directory: '" ++ path ++ "'"
  | .isDirectory => "[Errno 21] Is a directory: '" ++ path ++ "'"
  | .notDirectory => "[Errno 20] Not a directory: '" ++ path ++ "'"
  | .undecodable => "'utf-8' codec can't decode '" ++ path ++ "'"

def Failure.message : Failure → String
  | settings e => e.message
  | manifest e => e.message
  | git e => e.message
  | path e => e.message
  | storage fault place => fault.message place
  | scalar => "a scalar in .blockgen.yml has no value"

def Failure.ofStorage {α : Type} (loc : Location) : Except Tree.Fault α → Except Failure α
  | .ok a => .ok a
  | .error fault => .error (.storage fault loc.text)

end RegistryBlock
