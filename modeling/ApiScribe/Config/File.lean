import ApiScribe.Config.Basic
import ApiScribe.FileTree.Basic
import ApiScribe.Toml.Reader

/-! Configuration files. A setting that a file leaves out has its default, an
unknown one is passed over, and one of the wrong type makes the whole file
invalid. -/
namespace ApiScribe

namespace Toml

def asText? : Toml → Option String
  | .str text => some text
  | _ => none

def asBool? : Toml → Option Bool
  | .bool value => some value
  | _ => none

def asNat? : Toml → Option Nat
  | .int number => if 0 ≤ number then some number.toNat else none
  | _ => none

def asTexts? : Toml → Option (List String)
  | .array items => items.mapM asText?
  | _ => none

def isEmptyCollection : Toml → Bool
  | .array [] | .table _ [] => true
  | _ => false

/-- A provider by name. The name may also be the only key of a table, with
nothing under it. -/
def asProvider? : Toml → Option Provider
  | .str name => Provider.ofName? name
  | .table _ [(name, value)] => if isEmptyCollection value then Provider.ofName? name else none
  | _ => none

/-- The settings of a section. They may also be listed in the order of `names`;
a moment in time is a section without any. -/
def asSection? (names : List String) : Toml → Option Entries
  | .table _ entries => some entries
  | .array items | .tables items => some (names.zip items)
  | .moment => some []
  | _ => none

/-- A setting, where one that is left out has its default. -/
def setting? {α : Type} (read : Toml → Option α) (default : α) (entries : Entries)
    (key : String) : Option α :=
  match entries.lookup key with
  | none => some default
  | some value => read value

def asExtraction? (found : Toml) : Option Config.Extraction := do
  let entries ← asSection? ["serializer_bases", "view_bases", "model_bases"] found
  let default : Config.Extraction := {}
  let serializerBases ← setting? asTexts? default.serializerBases entries "serializer_bases"
  let viewBases ← setting? asTexts? default.viewBases entries "view_bases"
  let modelBases ← setting? asTexts? default.modelBases entries "model_bases"
  some { serializerBases, viewBases, modelBases }

def asOutput? (found : Toml) : Option Config.Output := do
  let entries ← asSection? ["sphinx_dir", "typescript_dir"] found
  let default : Config.Output := {}
  let sphinxDir ← setting? asText? default.sphinxDir entries "sphinx_dir"
  let typescriptDir ← setting? asText? default.typescriptDir entries "typescript_dir"
  some { sphinxDir, typescriptDir }

def asAssistant? (found : Toml) : Option Config.Assistant := do
  let entries ← asSection? ["provider", "model", "timeout_secs"] found
  let default : Config.Assistant := {}
  let provider ← setting? asProvider? default.provider entries "provider"
  let model ← setting? asText? default.model entries "model"
  let timeoutSeconds ← setting? asNat? default.timeoutSeconds entries "timeout_secs"
  some { provider, model, timeoutSeconds }

end Toml

namespace Config
open Toml

/-- The configuration that settings make. -/
def ofEntries? (entries : Entries) : Option Config := do
  let default : Config := {}
  let projectName ← setting? asText? default.projectName entries "project_name"
  let version ← setting? asText? default.version entries "version"
  let description ← setting? asText? default.description entries "description"
  let author ← setting? asText? default.author entries "author"
  let includeApps ← setting? (fun value => (asTexts? value).map some) default.includeApps entries
    "include_apps"
  let excludeApps ← setting? asTexts? default.excludeApps entries "exclude_apps"
  let excludeEndpoints ← setting? asTexts? default.excludeEndpoints entries "exclude_endpoints"
  let dryRun ← setting? asBool? default.dryRun entries "dry_run"
  let extraction ← setting? asExtraction? default.extraction entries "extraction"
  let output ← setting? asOutput? default.output entries "output"
  let assistant ← setting? asAssistant? default.assistant entries "ai"
  let config : Config :=
    { projectName, version, description, author, includeApps, excludeApps, excludeEndpoints,
      dryRun, extraction, output, assistant }
  some config

/-- The configuration that a text describes. -/
def ofText? (text : String) : Option Config := (Toml.ofText? text).bind ofEntries?

/-- Why there is no configuration. -/
inductive FileProblem where
  | unreadable (path : String) (cause : FileError)
  | invalid (path : String)
  deriving DecidableEq, Repr

def FileProblem.message : FileProblem → String
  | .unreadable path _ => "Failed to read configuration file: " ++ path
  | .invalid path => "Failed to parse configuration file: " ++ path

/-- The configuration in a file. -/
def ofFile (tree : FileTree) (path : String) : Except FileProblem Config :=
  match tree.read path with
  | .error cause => .error (.unreadable path cause)
  | .ok text =>
    match ofText? text with
    | some config => .ok config
    | none => .error (.invalid path)

end Config
end ApiScribe
