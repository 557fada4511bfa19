import ApiScribe.FileTree.Basic

/-! Inventory of a project: the application packages directly below its root and
their source files by role. A file has at most one role, which its name or the
name of its directory tells. -/
namespace ApiScribe
open Text

/-- What a source file of an application holds. -/
inductive FileRole where
  | models
  | serializers
  | views
  | urls
  deriving DecidableEq, Repr

namespace FileRole

def all : List FileRole := [.models, .serializers, .views, .urls]

/-- The names that stand for a role. -/
def names : FileRole → List String
  | .models => ["models"]
  | .serializers => ["serializers", "serializer"]
  | .views => ["views", "view", "viewsets", "viewset"]
  | .urls => ["urls"]

/-- The role of a name that is a role name or ends with one after an underscore. -/
def ofStem? (stem : String) : Option FileRole :=
  all.find? fun role => role.names.any fun name => stem == name || endsWith stem ("_" ++ name)

/-- The role of files in a directory. -/
def ofDirectory? (path : String) : Option FileRole :=
  ((Path.parent? path).bind Path.name?).bind fun directory =>
    all.find? fun role => role.names.contains directory

/-- The role of a file. Tests have none. -/
def ofPath? (path : String) : Option FileRole :=
  match Path.extension? path, Path.stem? path with
  | some extension, some stem =>
    if extension != "py" || startsWith stem "test" then none
    else (ofStem? stem).or (ofDirectory? path)
  | _, _ => none

end FileRole

/-- The source files of one application. -/
structure AppFiles where
  name : String
  rootPath : String
  pythonFiles : List String
  modelFiles : List String
  serializerFiles : List String
  viewFiles : List String
  urlFiles : List String
  deriving DecidableEq, Repr

/-- Sorts the files of an application by role. -/
def AppFiles.ofPaths (name rootPath : String) (paths : List String) : AppFiles :=
  let files (role : FileRole) := paths.filter fun path => FileRole.ofPath? path == some role
  { name, rootPath
    pythonFiles := paths
    modelFiles := files .models
    serializerFiles := files .serializers
    viewFiles := files .views
    urlFiles := files .urls }

/-- Why a project has no applications. -/
inductive ScanError where
  | missingRoot (root : String)
  | rootNotDirectory (root : String)
  | noPackages (root : String)
  deriving DecidableEq, Repr

/-- The file that makes a directory an application package. -/
def packageMarker : String := "__init__.py"

def ScanError.message : ScanError → String
  | .missingRoot root => "Project path does not exist: " ++ root
  | .rootNotDirectory root => "Project path is not a directory: " ++ root
  | .noPackages root =>
    "No application modules found in " ++ root ++ ": no subdirectory contains " ++ packageMarker

namespace Inventory

/-- Names that are passed over together with what is below them. -/
def isIgnored (name : String) : Bool := startsWith name "." || name == "__pycache__"

/-- The source files below a place in order, as paths below `path`. -/
def sourceFiles (tree : FileTree) (place : Place) (path : String) : List String :=
  (tree.below place).filterMap fun (names, node) =>
    match node with
    | .directory => none
    | .file _ =>
      let file := names.foldl Path.join path
      if names.any isIgnored || Path.extension? file != some "py" then none else some file

/-- The application that a directory directly below a root is, if it is one. -/
def package? (tree : FileTree) (place : Place) (root name : String) : Option AppFiles :=
  if isIgnored name then none
  else match tree.node? (place ++ [name, packageMarker]) with
    | some (.file _) =>
      let path := Path.join root name
      some (.ofPaths name path (sourceFiles tree (place ++ [name]) path))
    | _ => none

/-- The names of the directories directly below a place, in order. -/
def directories (tree : FileTree) (place : Place) : List String :=
  (tree.below place).filterMap fun (names, node) =>
    match names, node with
    | [name], .directory => some name
    | _, _ => none

/-- The applications of a project in the order of their names. -/
def scan (tree : FileTree) (root : String) : Except ScanError (List AppFiles) :=
  match tree.look root with
  | .error _ => .error (.missingRoot root)
  | .ok (_, .file _) => .error (.rootNotDirectory root)
  | .ok (place, .directory) =>
    match (directories tree place).filterMap (package? tree place root) with
    | [] => .error (.noPackages root)
    | apps => .ok apps

/-- What is told about a scan. -/
structure Survey where
  success : Bool
  /-- The names of the applications in order, each once. -/
  discovered : List String
  applications : List AppFiles
  errors : List ScanError
  deriving DecidableEq, Repr

/-- A scan that finds nothing tells only why. -/
def survey (tree : FileTree) (root : String) : Survey :=
  match scan tree root with
  | .ok apps =>
    { success := true, discovered := apps.map AppFiles.name, applications := apps, errors := [] }
  | .error cause => { success := false, discovered := [], applications := [], errors := [cause] }

end Inventory
end ApiScribe
