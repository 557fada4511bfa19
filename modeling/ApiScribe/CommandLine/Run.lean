import ApiScribe.CommandLine.Arguments
import ApiScribe.Config.File
import ApiScribe.Generation

/-! A run from the command line: the configuration of its arguments, the
generation and, if asked for, a report. -/
namespace ApiScribe.CommandLine

/-- Why arguments have no configuration, so that nothing is run. -/
inductive Failure where
  | missingConfig (path : String)
  | config (problem : Config.FileProblem)
  deriving DecidableEq, Repr

def Failure.message : Failure → String
  | .missingConfig path => "Configuration file does not exist: " ++ path
  | .config problem => problem.message

/-- Why a report is missing. -/
structure ReportProblem where
  path : String
  cause : SaveError
  deriving DecidableEq, Repr

def ReportProblem.message (problem : ReportProblem) : String :=
  "Failed to write report: " ++ problem.path

/-- What a run leads to. Everything else that was written stays also when the
report fails. -/
structure Outcome where
  config : Config
  generation : Generation
  reportProblem : Option ReportProblem

namespace Arguments

/-- The configuration that arguments start from. -/
def baseConfig (arguments : Arguments) (tree : FileTree) : Except Failure Config :=
  match arguments.config with
  | none => .ok {}
  | some path =>
    if tree.isFile path then (Config.ofFile tree path).mapError .config
    else .error (.missingConfig path)

/-- A configuration with what the arguments say instead. Applications to exclude
add to those of the configuration. -/
def adjust (arguments : Arguments) (config : Config) : Config :=
  let config := match arguments.outputDir with
    | some root => config.withOutputRoot root
    | none => config
  { config with
    includeApps := if arguments.apps.isEmpty then config.includeApps else some arguments.apps
    excludeApps := config.excludeApps ++ arguments.excludeApps
    dryRun := config.dryRun || arguments.dryRun
    assistant :=
      { config.assistant with
        provider := arguments.provider.getD config.assistant.provider } }

def outputs (arguments : Arguments) : Outputs :=
  if arguments.sphinxOnly then .sphinxOnly
  else if arguments.typescriptOnly then .typescriptOnly
  else .all

/-- Saves the report that the arguments ask for. A run that stopped early has
nothing to report on. -/
def saveReport (arguments : Arguments) (result : Generation) :
    Generation × Option ReportProblem :=
  match arguments.report, result.project with
  | some path, some project =>
    let (tree, failed) := result.tree.save path (project.report arguments.reportFormat)
    ({ result with tree }, failed.map (ReportProblem.mk path))
  | _, _ => (result, none)

/-- Runs with a configuration. No client is at hand on the command line, so
descriptions stay as they are. -/
def runWith (arguments : Arguments) (config : Config) (tree : FileTree) : Outcome :=
  let (generation, reportProblem) := arguments.saveReport
    (Generation.run config none arguments.outputs tree arguments.projectPath)
  { config, generation, reportProblem }

/-- Runs with arguments. -/
def run (arguments : Arguments) (tree : FileTree) : Except Failure Outcome :=
  (arguments.baseConfig tree).map fun base => arguments.runWith (arguments.adjust base) tree

end Arguments
end ApiScribe.CommandLine
