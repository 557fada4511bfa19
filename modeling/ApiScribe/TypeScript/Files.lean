import ApiScribe.Config.Basic
import ApiScribe.Output
import ApiScribe.Naming
import ApiScribe.TypeScript.Text

/-! The declaration files of modules: the common one, one for each module and an
index. A name is declared once in a file and exported by the index from the
first file that declares it; what is left out is reported. -/
namespace ApiScribe.TypeScript

/-- The first declaration of each name, and the names that come up again. -/
def firstDeclarations (seen : List String) :
    List Declaration → List Declaration × List String
  | [] => ([], [])
  | declaration :: rest =>
    if seen.contains declaration.name then
      let (kept, repeated) := firstDeclarations seen rest
      (kept, declaration.name :: repeated)
    else
      let (kept, repeated) := firstDeclarations (declaration.name :: seen) rest
      (declaration :: kept, repeated)

/-- Names with the module that exports them. -/
abbrev Owners := List (String × String)

/-- Enters the names of a module that no earlier one exports. -/
def claimNames (owners : Owners) (module : String) : List String → Owners
  | [] => owners
  | name :: rest =>
    if (owners.lookup name).isSome then claimNames owners module rest
    else claimNames ((name, module) :: owners) module rest

/-- The names of a module that an earlier one exports, with that one. -/
def takenNames (owners : Owners) (names : List String) : List (String × String) :=
  names.filterMap fun name => (owners.lookup name).map fun owner => (name, owner)

/-- The declaration file of a module in a directory. -/
def modulePath (directory module : String) : String := Path.join directory (module ++ ".d.ts")

/-- The emissions of one declaration file: its repeated names and its text. -/
def fileEmissions (config : Config) (title module : String) (imports : List Import)
    (declarations : List Declaration) : List Emission :=
  let path := modulePath config.output.typescriptDir module
  let (kept, repeated) := firstDeclarations [] declarations
  (repeated.map fun name => .problem path (.repeatedName name)) ++
    [.file path (fileText title config.projectName config.version imports kept)]

def indexPath (config : Config) : String := Path.join config.output.typescriptDir "index.d.ts"

/-- The heading of a module's file. -/
def moduleTitle (app : String) : String :=
  String.ofList (Naming.title app.toList) ++ " API Types"

/-- The emissions of modules, with their lines of the index, where `owners`
export the names of the modules before. -/
def moduleEmissions (config : Config) (owners : Owners) :
    List Module → List Emission × List Export
  | [] => ([], [])
  | module :: rest =>
    let names := (module.declarations.map Declaration.name).eraseDups
    let taken := takenNames owners names
    let owners := claimNames owners module.app names
    let own := names.filter fun name => owners.lookup name == some module.app
    let line : Export :=
      ⟨module.app, if taken.isEmpty then none else some (sortedDistinct own)⟩
    let (emissions, exports) := moduleEmissions config owners rest
    (fileEmissions config (moduleTitle module.app) module.app module.imports
        module.declarations ++
      (taken.map fun (name, owner) =>
        .problem (indexPath config) (.exportedBefore name module.app owner)) ++ emissions,
      line :: exports)

/-- All files of modules. -/
def emissions (config : Config) (modules : List Module) : List Emission :=
  let owners := claimNames [] commonModule (commonDeclarations.map Declaration.name)
  let (files, exports) := moduleEmissions config owners modules
  fileEmissions config "Common API Types" commonModule [] commonDeclarations ++ files ++
    [.file (indexPath config) (indexText config.projectName config.version exports)]

end ApiScribe.TypeScript
