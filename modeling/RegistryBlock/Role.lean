import RegistryBlock.Alias.Table

/-!
# Roles of files

The role of a file in a registry, and the place where it is to be installed. Files below the
directory of an alias get the role of the alias. Others are judged by their paths: pages lie under
`app/`, themes are named so, and the extension decides the rest.
-/

namespace RegistryBlock

/-- What a file of a registry is for. -/
inductive Role where
  | ui
  | block
  | hook
  | lib
  | page
  | theme
  | style
  | file
  | component
deriving DecidableEq, Repr

def Role.label : Role → String
  | ui => "registry:ui"
  | block => "registry:block"
  | hook => "registry:hook"
  | lib => "registry:lib"
  | page => "registry:page"
  | theme => "registry:theme"
  | style => "registry:style"
  | file => "registry:file"
  | component => "registry:component"

/-- A role with the place of installation, if the role does not imply it. -/
structure Placement where
  role : Role
  target : Option String := none
deriving DecidableEq, Repr

namespace Placement

def styleExtensions : List String := [".css", ".scss", ".sass", ".less", ".pcss"]

def dataExtensions : List String := [".json", ".yaml", ".yml", ".md", ".mdx", ".txt"]

def componentExtensions : List String := [".tsx", ".jsx"]

/-- The slots whose aliases decide the role, in the order in which they are asked. -/
def aliasRoles : List (Slot × Role) :=
  [(.ui, .ui), (.components, .block), (.hooks, .hook), (.lib, .lib)]

def isUnder (path directory : List Char) : Bool :=
  path = directory || Text.startsWith (directory ++ ['/']) path

/-- The role that the aliases give to a path. -/
def aliasRole? (settings : AliasSettings) (path : List Char) : Option Role :=
  aliasRoles.findSome? fun (slot, role) =>
    match (settings.get? slot).bind aliasPath? with
    | some directory => if isUnder path directory then some role else none
    | none => none

/-- Whether a character is an English letter or a digit, letters being compared without case. The
dotted and dotless i, the long s and the kelvin sign are letters in this sense. -/
def isLetterOrDigit (c : Char) : Bool :=
  c.isAlphanum || c.toNat = 0x130 || c.toNat = 0x131 || c.toNat = 0x17F || c.toNat = 0x212A

/-- The path without an extension of letters and digits at its very end. -/
def dropPlainExtension (path : List Char) : List Char :=
  let plain := path.reverse.takeWhile isLetterOrDigit
  match path.reverse.dropWhile isLetterOrDigit with
  | '.' :: rest => if plain.isEmpty then path else rest.reverse
  | _ => path

/-- Whether a path ends in the name `theme`, or in a name on one line that ends in `-theme`. Case
does not count. -/
def endsInTheme (path : List Char) : Bool :=
  match Text.dropFront? "emeht".toList ((path.map Char.toLower).reverse) with
  | none => false
  | some [] => true
  | some ('/' :: _) => true
  | some ('-' :: rest) => !(rest.takeWhile (· != '/')).contains '\n'
  | some _ => false

/-- Whether the path names a theme. A line feed at the end does not count. -/
def isTheme (path : List Char) : Bool :=
  let path := if path.getLast? = some '\n' then path.dropLast else path
  endsInTheme path || endsInTheme (dropPlainExtension path)

def dropSourceRoot (path : List Char) : List Char :=
  (Text.dropFront? "src/".toList path).getD path

/-- A place seen from the directory of the installed item. -/
def inItem (path : List Char) : String := "./" ++ String.ofList path

def inProject (path : List Char) : String := "~/" ++ String.ofList path

/-- The placement of the file with the given key. Style sheets stay in the item if they come from
the directory of the sources. -/
def ofKey (settings : AliasSettings) (key : String) (fromSourceRoot : Bool) : Placement :=
  let path := key.toList
  let extension := String.ofList (Path.extension path)
  let installed := dropSourceRoot path
  match aliasRole? settings path with
  | some role => { role }
  | none =>
    if Text.startsWith "app/".toList path then { role := .page, target := inItem installed }
    else if isTheme path then { role := .theme }
    else if extension ∈ styleExtensions then
      { role := .style, target := if fromSourceRoot then inItem path else inProject path }
    else if Text.startsWith ".env".toList (Path.baseName path) || extension ∈ dataExtensions then
      { role := .file, target := inProject installed }
    else if extension ∈ componentExtensions then { role := .component }
    else { role := .file, target := inItem installed }

end Placement

end RegistryBlock
