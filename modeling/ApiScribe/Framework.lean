import ApiScribe.Source.File

/-! Frameworks that source files import. Only the package at the head of an
imported module counts, and a relative import names no package. -/
namespace ApiScribe
open Text

inductive Framework where
  | django
  | restFramework
  | djangoFilters
  deriving DecidableEq, Repr

namespace Framework

def all : List Framework := [.django, .restFramework, .djangoFilters]

/-- The package that a framework is imported from. -/
def package : Framework → String
  | .django => "django"
  | .restFramework => "rest_framework"
  | .djangoFilters => "django_filters"

private def headPackage (module : List Char) : String :=
  String.ofList (module.takeWhile (· ≠ '.'))

private def firstWord (text : List Char) : List Char := (words text).headD []

/-- The packages that an import statement names. -/
def importedPackages (statement : String) : List String :=
  match dropHead? "from ".toList statement.toList with
  | some rest =>
    let module := firstWord rest
    if module.head? = some '.' then [] else [headPackage module]
  | none =>
    match dropHead? "import ".toList statement.toList with
    | some rest => (splitAt (· == ',') rest).map fun part => headPackage (firstWord part)
    | none => []

/-- The frameworks that files import, in a fixed order. -/
def detect (files : List Source.File) : List Framework :=
  let packages := files.flatMap fun file => file.block.imports.flatMap importedPackages
  all.filter fun framework => packages.contains framework.package

end Framework
end ApiScribe
