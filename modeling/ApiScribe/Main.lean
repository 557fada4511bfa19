import ApiScribe.CommandLine.Run

/-! The program. It reads what a run needs from the disk into a file tree, runs
on the tree and writes what the run has saved there. Everything in between is
decided without looking at the disk. -/
namespace ApiScribe.Program
open CommandLine

def usage : String :=
  "Usage: apiscribe [OPTIONS] <PROJECT_PATH>\n\n" ++
    "Documents the REST interface of a Django project and declares its types.\n\n" ++
    "  -c, --config <FILE>            configuration file\n" ++
    "  -o, --output-dir <DIR>         directory for both outputs\n" ++
    "  -a, --apps <NAMES>             only these applications, between commas\n" ++
    "      --exclude-apps <NAMES>     without these applications\n" ++
    "      --dry-run                  write no file\n" ++
    "      --sphinx-only              only the documentation\n" ++
    "      --typescript-only          only the types\n" ++
    "      --ai-provider <PROVIDER>   openai, anthropic or local\n" ++
    "      --report <FILE>            write what was found to a file\n" ++
    "      --report-format <FORMAT>   yaml or json\n" ++
    "  -v, --verbose                  say more\n" ++
    "  -h, --help                     print this text\n" ++
    "  -V, --version                  print the version"

def version : String := "apiscribe 0.1.0"

/-- Why arguments were refused. Help and version are no mistakes. -/
def refusalText : Refusal → String
  | .conflict => "an argument was given twice or together with one that excludes it"
  | .invalidValue => "an option has no value or one that it does not take"
  | .missingArgument => "the path of the project is missing"
  | .tooManyValues => "an option without values was given one"
  | .unknownArgument => "an argument is not known"
  | .help => usage
  | .version => version

/-- Reads a file into a tree. -/
def loadFile (tree : FileTree) (path : String) : IO FileTree := do
  let content := Content.ofBytes (← IO.FS.readBinFile path)
  let tree := match Path.parent? path with
    | some parent => (tree.makeDirectories parent).1
    | none => tree
  return (tree.write path content).toOption.getD tree

/-- Reads a directory into a tree with the source files below it. Links are not
followed, so this comes to an end. -/
partial def loadDirectory (tree : FileTree) (path : String) : IO FileTree := do
  let directory ← IO.FS.realPath path
  let entries ← directory.readDir
  let mut tree := (tree.makeDirectories path).1
  for entry in entries do
    let inside := Path.join path entry.fileName
    if !Inventory.isIgnored entry.fileName then
      match (← entry.path.symlinkMetadata).type with
      | .dir => tree ← loadDirectory tree inside
      | .file =>
        if Path.extension? inside == some "py" then tree ← loadFile tree inside
      | _ => pure ()
  return tree

/-- Reads what stands at a path, if anything does. -/
def load (tree : FileTree) (path : String) : IO FileTree := do
  try loadDirectory tree path
  catch _ =>
    try loadFile tree path
    catch _ => return tree

/-- Writes a file of a tree to the disk. -/
def store (tree : FileTree) (path : String) : IO Unit := do
  match tree.read path with
  | .error _ => return ()
  | .ok text =>
    match Path.parent? path with
    | some parent => if !parent.isEmpty then IO.FS.createDirAll parent
    | none => pure ()
    IO.FS.writeFile path text

/-- The files that a run has saved, the report included. -/
def savedPaths (arguments : Arguments) (outcome : Outcome) : List String :=
  let report := if outcome.reportProblem.isNone && outcome.generation.project.isSome then
    arguments.report.toList else []
  outcome.generation.written ++ report

/-- Says what a run has led to. -/
def announce (arguments : Arguments) (outcome : Outcome) : IO UInt32 := do
  let result := outcome.generation
  for warning in result.warnings do IO.eprintln warning.message
  for error in result.errors do IO.eprintln error.message
  for path in savedPaths arguments outcome do
    if arguments.verbose then IO.println ("wrote " ++ path)
  for (name, count) in result.statistics do IO.println (name ++ ": " ++ toString count)
  match outcome.reportProblem with
  | some problem =>
    IO.eprintln problem.message
    return 1
  | none => return if result.success then 0 else 1

/-- Runs with arguments on what the disk holds. -/
def run (arguments : Arguments) : IO UInt32 := do
  let tree ← load .empty arguments.projectPath
  let tree ← match arguments.config with
    | some path => load tree path
    | none => pure tree
  match arguments.run tree with
  | .error cause =>
    IO.eprintln cause.message
    return 1
  | .ok outcome =>
    for path in savedPaths arguments outcome do store outcome.generation.tree path
    announce arguments outcome

end ApiScribe.Program

open ApiScribe in
def main (texts : List String) : IO UInt32 := do
  match CommandLine.Arguments.read texts with
  | .ok arguments => Program.run arguments
  | .error .help =>
    IO.println (Program.refusalText .help)
    return 0
  | .error .version =>
    IO.println (Program.refusalText .version)
    return 0
  | .error cause =>
    IO.eprintln (Program.refusalText cause)
    return 2
