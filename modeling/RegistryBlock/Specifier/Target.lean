import RegistryBlock.Alias.Table

/-!
# Where a specifier leads

A local specifier denotes a candidate path: relative to the importing file, through an alias, or
below the root. The target is the first known path among the candidate itself, the candidate with
a source extension, and an index file in the candidate. A candidate above the project has none.
-/

namespace RegistryBlock.Specifier

/-- The extensions of source files in the order in which they are tried. -/
def sourceExtensions : List String :=
  [".tsx", ".ts", ".jsx", ".js", ".mts", ".mjs", ".cts", ".cjs"]

/-- The files that stand for their directory in the order in which they are tried. -/
def indexNames : List String := ["index.tsx", "index.ts", "index.jsx", "index.js"]

def isRelative (cs : List Char) : Bool :=
  match cs with
  | c :: _ => c = '.' || c = '/'
  | [] => false

def dropMark (cs : List Char) : List Char :=
  match cs with
  | '@' :: '/' :: rest => rest
  | '~' :: '/' :: rest => rest
  | _ => cs

def candidate (table : AliasTable) (importer specifier : String) : String :=
  let cs := specifier.toList
  if isRelative cs then
    String.ofList
      (Path.join (Path.directory (Path.key importer).toList) (cs.dropWhile isSlash))
  else
    match table.entries.findSome? (·.substitute? specifier) with
    | some path => path
    | none => String.ofList (Path.join table.root.toList (dropMark cs))

/-- The candidate with an extension, unless it has it already. -/
def withExtension (path extension : String) : String :=
  if Text.endsWith extension.toList path.toList then path else path ++ extension

def inDirectory (path name : String) : String :=
  String.ofList (Text.dropEndWhile isSlash path.toList) ++ "/" ++ name

/-- The paths that a candidate may stand for in the order in which they are tried. -/
def variants (path : String) : List String :=
  path :: sourceExtensions.map (withExtension path) ++ indexNames.map (inDirectory path)

def target? (table : AliasTable) (known : String → Bool) (importer specifier : String) :
    Option String :=
  let path := candidate table importer specifier
  if path = "" ∨ Text.startsWith "../".toList path.toList then none
  else (variants path).find? known

theorem known_of_target?_eq_some {table : AliasTable} {known : String → Bool}
    {importer specifier path : String}
    (h : target? table known importer specifier = some path) : known path = true := by
  simp only [target?] at h
  split at h
  · cases h
  · exact List.find?_some h

end RegistryBlock.Specifier
