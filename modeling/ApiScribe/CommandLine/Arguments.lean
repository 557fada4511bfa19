import ApiScribe.Config.Basic
import ApiScribe.Report

/-! Command line arguments. Arguments are taken one by one; the value of an
option is checked when the next argument shows that it is complete, so that of
two mistakes the one that shows first is reported. -/
namespace ApiScribe.CommandLine
open Text

/-- Why arguments do not lead to a run. -/
inductive Refusal where
  | conflict
  | help
  | version
  | invalidValue
  | missingArgument
  | tooManyValues
  | unknownArgument
  deriving DecidableEq, Repr

/-- Options that take a value. -/
inductive ValueOption where
  | config
  | outputDir
  | apps
  | excludeApps
  | provider
  | report
  | reportFormat
  deriving DecidableEq, Repr

/-- Options that take none. -/
inductive Flag where
  | dryRun
  | sphinxOnly
  | typescriptOnly
  | verbose
  | help
  | version
  deriving DecidableEq, Repr

inductive Switch where
  | value (option : ValueOption)
  | flag (flag : Flag)
  deriving DecidableEq, Repr

/-- An option by its long name. -/
def long? : String → Option Switch
  | "config" => some (.value .config)
  | "output-dir" => some (.value .outputDir)
  | "apps" => some (.value .apps)
  | "exclude-apps" => some (.value .excludeApps)
  | "ai-provider" => some (.value .provider)
  | "report" => some (.value .report)
  | "report-format" => some (.value .reportFormat)
  | "dry-run" => some (.flag .dryRun)
  | "sphinx-only" => some (.flag .sphinxOnly)
  | "typescript-only" => some (.flag .typescriptOnly)
  | "verbose" => some (.flag .verbose)
  | "help" => some (.flag .help)
  | "version" => some (.flag .version)
  | _ => none

/-- An option by its letter. -/
def short? : Char → Option Switch
  | 'c' => some (.value .config)
  | 'o' => some (.value .outputDir)
  | 'a' => some (.value .apps)
  | 'v' => some (.flag .verbose)
  | 'h' => some (.flag .help)
  | 'V' => some (.flag .version)
  | _ => none

/-- What has been given. -/
structure Given where
  projectPath : Option String := none
  config : Option String := none
  outputDir : Option String := none
  apps : List String := []
  excludeApps : List String := []
  dryRun : Bool := false
  sphinxOnly : Bool := false
  typescriptOnly : Bool := false
  provider : Option Provider := none
  report : Option String := none
  reportFormat : Option ReportFormat := none
  verbose : Bool := false
  deriving DecidableEq, Repr

/-- Sets what may be given once. -/
def setOnce {α : Type} (current : Option α) (read : String → Option α) (text : String) :
    Except Refusal (Option α) :=
  if current.isSome then .error .conflict
  else match read text with
    | some value => .ok (some value)
    | none => .error .invalidValue

def setFlag (current : Bool) : Except Refusal Bool :=
  if current then .error .conflict else .ok true

/-- A path may not be empty. -/
def readPath (text : String) : Option String := if text.isEmpty then none else some text

/-- The items of a list between commas. -/
def listItems (text : String) : List String :=
  (splitAt (· == ',') text.toList).map String.ofList

namespace Given

/-- Takes the value of an option. Lists grow, everything else is given once. -/
def takeValue (given : Given) (text : String) : ValueOption → Except Refusal Given
  | .config => (setOnce given.config readPath text).map fun config => { given with config }
  | .outputDir =>
    (setOnce given.outputDir readPath text).map fun outputDir => { given with outputDir }
  | .apps => .ok { given with apps := given.apps ++ listItems text }
  | .excludeApps => .ok { given with excludeApps := given.excludeApps ++ listItems text }
  | .provider =>
    (setOnce given.provider Provider.ofName? text).map fun provider => { given with provider }
  | .report => (setOnce given.report readPath text).map fun report => { given with report }
  | .reportFormat =>
    (setOnce given.reportFormat ReportFormat.ofName? text).map fun reportFormat =>
      { given with reportFormat }

def takeFlag (given : Given) : Flag → Except Refusal Given
  | .dryRun => (setFlag given.dryRun).map fun dryRun => { given with dryRun }
  | .sphinxOnly => (setFlag given.sphinxOnly).map fun sphinxOnly => { given with sphinxOnly }
  | .typescriptOnly =>
    (setFlag given.typescriptOnly).map fun typescriptOnly => { given with typescriptOnly }
  | .verbose => (setFlag given.verbose).map fun verbose => { given with verbose }
  | .help => .error .help
  | .version => .error .version

end Given

/-- What the last arguments have begun and the next one may complete. -/
inductive Pending where
  | nothing
  /-- An option that still lacks its value. -/
  | option (option : ValueOption)
  | value (option : ValueOption) (text : String)
  | path (text : String)
  deriving DecidableEq, Repr

/-- How far the arguments have been taken. -/
structure Progress where
  given : Given := {}
  pending : Pending := .nothing
  /-- Whether the place of the project path has been filled. -/
  placed : Bool := false
  /-- Whether all further arguments are places. -/
  plain : Bool := false
  deriving DecidableEq, Repr

namespace Progress

/-- Takes what is pending. -/
def settle (progress : Progress) : Except Refusal Progress :=
  match progress.pending with
  | .nothing => .ok progress
  | .option _ => .error .invalidValue
  | .value option text =>
    (progress.given.takeValue text option).map fun given =>
      { progress with given, pending := .nothing }
  | .path text =>
    (setOnce progress.given.projectPath readPath text).map fun projectPath =>
      { progress with given := { progress.given with projectPath }, pending := .nothing }

/-- Takes a flag. -/
def flag (progress : Progress) (flag : Flag) : Except Refusal Progress :=
  progress.settle.bind fun settled =>
    (settled.given.takeFlag flag).map fun given => { settled with given }

/-- Takes an option together with its value. -/
def attached (progress : Progress) (option : ValueOption) (text : String) :
    Except Refusal Progress :=
  progress.settle.bind fun settled =>
    (settled.given.takeValue text option).map fun given => { settled with given }

/-- Begins an option whose value is the next argument. -/
def begin (progress : Progress) (option : ValueOption) : Except Refusal Progress :=
  progress.settle.map fun settled => { settled with pending := .option option }

/-- Takes an argument after two dashes. -/
def longOption (progress : Progress) (text : List Char) : Except Refusal Progress :=
  let (name, value) := match cutAt? ['='] text with
    | some (name, value) => (name, some (String.ofList value))
    | none => (text, none)
  match long? (String.ofList name), value with
  | none, _ => .error .unknownArgument
  | some (.flag _), some _ => .error .tooManyValues
  | some (.flag found), none => progress.flag found
  | some (.value option), some text => progress.attached option text
  | some (.value option), none => progress.begin option

/-- Takes letters after one dash. What follows the letter of an option with a
value is that value, before which an equals sign may stand. -/
def letters (progress : Progress) : List Char → Except Refusal Progress
  | [] => .ok progress
  | letter :: rest =>
    match short? letter with
    | none => .error .unknownArgument
    | some (.flag found) => (progress.flag found).bind fun next => next.letters rest
    | some (.value option) =>
      match rest with
      | [] => progress.begin option
      | '=' :: text => progress.attached option (String.ofList text)
      | text => progress.attached option (String.ofList text)

/-- Takes an argument that fills a place, of which there is one. -/
def place (progress : Progress) (text : String) : Except Refusal Progress :=
  if progress.placed then .error .unknownArgument
  else progress.settle.map fun settled => { settled with pending := .path text, placed := true }

/-- Takes an argument that is no option: the value of one or a place. -/
def operand (progress : Progress) (text : String) : Except Refusal Progress :=
  match progress.pending with
  | .option option => .ok { progress with pending := .value option text }
  | _ => progress.place text

/-- Takes one argument. -/
def take (progress : Progress) (text : String) : Except Refusal Progress :=
  if progress.plain then progress.place text
  else match text.toList with
    | ['-', '-'] => .ok { progress with plain := true }
    | '-' :: '-' :: name => progress.longOption name
    | '-' :: letter :: rest => progress.letters (letter :: rest)
    | _ => progress.operand text

end Progress

/-- The arguments of a run. -/
structure Arguments where
  projectPath : String
  config : Option String
  outputDir : Option String
  apps : List String
  excludeApps : List String
  dryRun : Bool
  sphinxOnly : Bool
  typescriptOnly : Bool
  provider : Option Provider
  report : Option String
  reportFormat : ReportFormat
  verbose : Bool
  deriving DecidableEq, Repr

/-- The arguments of a run that have been given. -/
def Given.complete (given : Given) : Except Refusal Arguments :=
  if given.sphinxOnly && given.typescriptOnly then .error .conflict
  else match given.projectPath with
    | none => .error .missingArgument
    | some projectPath =>
      .ok
        { projectPath
          config := given.config
          outputDir := given.outputDir
          apps := given.apps
          excludeApps := given.excludeApps
          dryRun := given.dryRun
          sphinxOnly := given.sphinxOnly
          typescriptOnly := given.typescriptOnly
          provider := given.provider
          report := given.report
          reportFormat := given.reportFormat.getD .yaml
          verbose := given.verbose }

/-- Reads arguments. -/
def Arguments.read (texts : List String) : Except Refusal Arguments :=
  ((texts.foldlM Progress.take {}).bind Progress.settle).bind fun progress =>
    progress.given.complete

end ApiScribe.CommandLine
