import RegistryBlock.Kit
import RegistryBlock.Package.Manifest
import RegistryBlock.Specifier.Kind
import RegistryBlock.Specifier.Statement

/-!
# Packages that a block needs

Of the packages that a project declares, a block needs those that its files import. A package that
stands for a registry from which the block installs components is not needed.
-/

namespace RegistryBlock

def Specifier.packages (text : String) : List String :=
  distinctBy id [] ((all text).filterMap package?)

def importedPackages (files : List SourceFile) : List String :=
  distinctBy id [] (files.flatMap fun file => Specifier.packages file.content)

namespace Manifest

/-- The package that stands for the whole UI kit. -/
def kitPackage : String := "shadcn/ui"

/-- The namespaces that some references belong to, each once. Only the kit's namespace and those of
the project's registries count. -/
def namespaces (settings : AliasSettings) (references : List String) : List String :=
  let known := Kit.defaultNamespace :: settings.registries
  distinctBy id []
    ((references.map fun reference => String.ofList (Text.cutAt '/' reference.toList).1).filter
      (· ∈ known))

def standsForRegistry (namespaces : List String) (name : String) : Bool :=
  !namespaces.isEmpty &&
    (name = kitPackage || namespaces.any fun ns => name = ns || name = ns ++ "/ui")

def isNeeded (used namespaces : List String) (name : String) : Bool :=
  used.contains name && !standsForRegistry namespaces name

def needed (manifest : Manifest) (settings : AliasSettings) (used references : List String) :
    Manifest :=
  let keep := List.filter (isNeeded used (namespaces settings references))
  { dependencies := keep manifest.dependencies
    devDependencies := keep manifest.devDependencies }

def size (manifest : Manifest) : Nat :=
  manifest.dependencies.length + manifest.devDependencies.length

end Manifest

end RegistryBlock
