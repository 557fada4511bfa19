import ApiScribe.App.Enrichment
import ApiScribe.Sphinx.Pages
import ApiScribe.Text.Quoted
import ApiScribe.TypeScript.Files
import ApiScribe.TypeScript.Synthesis

/-! Generation of all outputs for a project. A run that cannot select any
application stops with one error; otherwise every output is attempted, and what
fails is reported beside what was written. -/
namespace ApiScribe

/-- The outputs of a run. -/
inductive Outputs where
  | all
  | sphinxOnly
  | typescriptOnly
  deriving DecidableEq, Repr

def Outputs.sphinx (outputs : Outputs) : Bool := outputs != .typescriptOnly

def Outputs.typescript (outputs : Outputs) : Bool := outputs != .sphinxOnly

namespace Generation

/-- What a run stops with when the configuration leaves out every application. -/
def noneSelected (found : List AppFiles) : Error :=
  .validation ("No applications selected: all of " ++ Text.quotedSet (found.map AppFiles.name) ++
    " were filtered out")

/-- The applications of a project that take part. -/
def selected (config : Config) (tree : FileTree) (root : String) :
    Except Error (List AppFiles) :=
  match Inventory.scan tree root with
  | .error cause => .error (.validation cause.message)
  | .ok found =>
    match found.filter fun files => config.includesApp files.name with
    | [] => .error (noneSelected found)
    | apps => .ok apps

/-- An application without the endpoints that the configuration excludes. -/
def keepEndpoints (config : Config) (app : App) : App :=
  { app with endpoints := app.endpoints.filter fun endpoint => config.includesPath endpoint.path }

/-- What is known about applications, with the warnings and the questions that
came up on the way. -/
structure Findings where
  apps : List App
  warnings : List Warning
  prompts : List String

/-- Analyzes and enriches applications one after the other, after `asked`
questions. -/
def findings (config : Config) (client : Option Client) (tree : FileTree) (asked : Nat) :
    List AppFiles → Findings
  | [] => ⟨[], [], []⟩
  | files :: rest =>
    let (app, warnings) := App.analyze config.extraction tree files
    let enriched := Enrichment.enrich config.assistant client asked (keepEndpoints config app)
    let others := findings config client tree (asked + enriched.prompts.length) rest
    ⟨enriched.value :: others.apps, warnings ++ others.warnings, enriched.prompts ++ others.prompts⟩

/-- Everything that is to be saved, documentation before types. -/
def emissions (config : Config) (outputs : Outputs) (apps : List App) : List Emission :=
  (if outputs.sphinx then Sphinx.emissions config apps else []) ++
    (if outputs.typescript then TypeScript.emissions config (TypeScript.modulesOf apps) else [])

/-- The number of declarations in the modules of applications. -/
def declarationCount (apps : List App) : Nat :=
  (TypeScript.modulesOf apps).foldl (fun count module => count + module.declarations.length) 0

end Generation

/-- What a run leads to. -/
structure Generation where
  tree : FileTree
  written : List String := []
  errors : List Error := []
  warnings : List Warning := []
  prompts : List String := []
  /-- What the outputs were made from, if the run came that far. -/
  project : Option Project := none
  outputs : Outputs

namespace Generation

def success (result : Generation) : Bool := result.errors.isEmpty

/-- Counts over all applications, by name. -/
def projectStatistics (outputs : Outputs) (apps : List App) : List (String × Nat) :=
  let total (count : App → Nat) := apps.foldl (fun sum app => sum + count app) 0
  [("applications", apps.length),
    ("python_files", total App.pythonFileCount),
    ("models", total fun app => app.models.length),
    ("serializers", total fun app => app.serializers.length),
    ("views", total fun app => app.views.length),
    ("endpoints", total fun app => app.endpoints.length)] ++
    (if outputs.typescript then [("type_declarations", declarationCount apps)] else [])

/-- The counts of a run. One that stopped early only counts its files. -/
def statistics (result : Generation) : List (String × Nat) :=
  (match result.project with
    | some project => projectStatistics result.outputs project.apps
    | none => []) ++ [("generated_files", result.written.length)]

/-- Runs one configuration on the project below a root. -/
def run (config : Config) (client : Option Client) (outputs : Outputs) (tree : FileTree)
    (root : String) : Generation :=
  match selected config tree root with
  | .error error => { tree, errors := [error], outputs }
  | .ok apps =>
    let found := findings config client tree 0 apps
    let saved := Saved.emitAll config.dryRun { tree } (emissions config outputs found.apps)
    { tree := saved.tree
      written := saved.written
      errors := saved.errors
      warnings := found.warnings
      prompts := found.prompts
      project := some { name := config.projectName, version := config.version, apps := found.apps }
      outputs }

end Generation
end ApiScribe
