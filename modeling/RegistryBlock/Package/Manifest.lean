import RegistryBlock.Json.Reader

/-!
# Package manifests

The names of the packages that a project depends on, in the order of its manifest.
-/

namespace RegistryBlock

structure Manifest where
  dependencies : List String := []
  devDependencies : List String := []
deriving DecidableEq, Repr

namespace Manifest

inductive Error where
  | malformed (cause : Json.Error)
  | noObject
deriving DecidableEq, Repr

def Error.message : Error → String
  | malformed cause => "Failed to parse package manifest: " ++ cause.message
  | noObject => "Package manifest must contain a JSON object at the root"

def names (members : List (String × Json.Value)) (part : String) : List String :=
  ((members.lookup part).map Json.Value.keys).getD []

def parse (text : String) : Except Error Manifest :=
  match Json.parse text with
  | .error cause => .error (.malformed cause)
  | .ok (.obj members) =>
    .ok { dependencies := names members "dependencies"
          devDependencies := names members "devDependencies" }
  | .ok _ => .error .noObject

end Manifest

end RegistryBlock
