import ApiScribe.Path

/-! Configuration of a run. Every setting has a default, and a run gets its
configuration as a value, so that two runs with the same one do the same. -/
namespace ApiScribe

/-- Who writes descriptions. The local provider never asks anyone. -/
inductive Provider where
  | openai
  | anthropic
  | «local»
  deriving DecidableEq, Repr

namespace Provider

def all : List Provider := [.openai, .anthropic, .local]

def name : Provider → String
  | .openai => "openai"
  | .anthropic => "anthropic"
  | .local => "local"

def ofName? (name : String) : Option Provider :=
  all.find? fun provider => provider.name == name

end Provider

/-- Base names that count beside those of the framework. -/
structure Config.Extraction where
  serializerBases : List String := []
  viewBases : List String := []
  modelBases : List String := []
  deriving DecidableEq, Repr

/-- The directories that the two kinds of output go to. -/
structure Config.Output where
  sphinxDir : String := "docs/api"
  typescriptDir : String := "types"
  deriving DecidableEq, Repr

/-- How descriptions are asked for. -/
structure Config.Assistant where
  provider : Provider := .local
  model : String := "gpt-4"
  timeoutSeconds : Nat := 60
  deriving DecidableEq, Repr

/-- The configuration of a run. -/
structure Config where
  projectName : String := "Django API"
  version : String := "1.0.0"
  description : String := "Auto-generated API documentation"
  author : String := ""
  includeApps : Option (List String) := none
  excludeApps : List String := []
  excludeEndpoints : List String := ["/admin/", "/debug/"]
  dryRun : Bool := false
  extraction : Config.Extraction := {}
  output : Config.Output := {}
  assistant : Config.Assistant := {}
  deriving DecidableEq, Repr

namespace Config

/-- Whether an application takes part. A list of applications to include decides
alone; without one, those to exclude stay out. -/
def includesApp (config : Config) (name : String) : Bool :=
  match config.includeApps with
  | some included => included.contains name
  | none => !config.excludeApps.contains name

/-- Whether endpoints with a path are kept: none of the excluded texts may be
anywhere in it. -/
def includesPath (config : Config) (path : String) : Bool :=
  !config.excludeEndpoints.any fun text => Text.contains text.toList path.toList

/-- The configuration with both outputs below one directory. -/
def withOutputRoot (config : Config) (root : String) : Config :=
  { config with
    output :=
      { sphinxDir := Path.join (Path.join root "docs") "api"
        typescriptDir := Path.join root "types" } }

end Config
end ApiScribe
