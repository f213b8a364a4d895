import RegistryBlock.Text.Blank

/-!
# What an import specifier points at

A specifier names a module of the runtime, a file of the project, or a package. White space around
it does not count.
-/

namespace RegistryBlock.Specifier

def localFronts : List (List Char) :=
  [".".toList, "/".toList, "@/".toList, "~/".toList, "#".toList]

def isBuiltin (cs : List Char) : Bool :=
  cs = "node".toList || Text.startsWith "node:".toList cs

def isLocal (specifier : String) : Bool :=
  let cs := Text.trim specifier.toList
  !cs.isEmpty && !isBuiltin cs && localFronts.any (Text.startsWith · cs)

/-- The first segment, or the first two of a scoped name. -/
def rootName (cs : List Char) : List Char :=
  match cs with
  | '@' :: _ =>
    match Text.cutAt '/' cs with
    | (scope, some rest) => scope ++ '/' :: (Text.cutAt '/' rest).1
    | (scope, none) => scope
  | _ => (Text.cutAt '/' cs).1

def package? (specifier : String) : Option String :=
  let cs := Text.trim specifier.toList
  if cs.isEmpty || isBuiltin cs || isLocal specifier then none
  else some (String.ofList (rootName cs))

end RegistryBlock.Specifier
