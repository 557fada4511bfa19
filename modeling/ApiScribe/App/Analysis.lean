import ApiScribe.App.Inheritance
import ApiScribe.Framework
import ApiScribe.Inventory
import ApiScribe.Schema.Meta
import ApiScribe.Web.Endpoint

/-! Analysis of an application: the classes of its model, serializer and view
files and the endpoints of its view and URL files. A file that cannot be read
is reported and otherwise passed over. -/
namespace ApiScribe
open Source (File)

/-- What is known about one application. -/
structure App where
  name : String
  rootPath : String
  pythonFileCount : Nat
  usesRestFramework : Bool
  models : List ClassFields
  serializers : List ClassFields
  views : List View
  endpoints : List Endpoint
  deriving DecidableEq, Repr

/-- What is known about a project, as a report shows it. -/
structure Project where
  name : String
  version : String
  apps : List App
  deriving DecidableEq, Repr

namespace App

/-- Paths without those that spell an earlier one differently. -/
def distinctPaths (seen : List String) : List String → List String
  | [] => []
  | path :: rest =>
    if seen.any (Path.same path) then distinctPaths seen rest
    else path :: distinctPaths (path :: seen) rest

private theorem mem_of_distinctPaths (listed : path ∈ distinctPaths seen paths) : path ∈ paths := by
  induction paths generalizing seen with
  | nil => exact listed
  | cons first rest ih =>
    rw [distinctPaths] at listed
    split at listed
    · exact List.mem_cons_of_mem first (ih listed)
    · rcases List.mem_cons.mp listed with rfl | later
      · exact List.mem_cons_self
      · exact List.mem_cons_of_mem first (ih later)

/-- The files with a role, each once: models, serializers, views, URLs. -/
def roleFiles (files : AppFiles) : List String :=
  distinctPaths [] (files.modelFiles ++ files.serializerFiles ++ files.viewFiles ++ files.urlFiles)

/-- The files with a role are among those that were sorted. -/
theorem mem_of_roleFiles {called root : String} {paths : List String}
    (listed : path ∈ roleFiles (.ofPaths called root paths)) : path ∈ paths := by
  have sorted := mem_of_distinctPaths listed
  simp only [AppFiles.ofPaths, List.mem_append, List.mem_filter] at sorted
  rcases sorted with ((found | found) | found) | found <;> exact found.1

/-- Reads a file or says why it cannot be read. -/
def readFile (tree : FileTree) (path : String) : Except Warning File :=
  match tree.read path with
  | .ok text => .ok (.ofText path text)
  | .error cause => .error (.unreadable path cause)

private def isAmong (paths : List String) (file : File) : Bool := paths.any (Path.same file.path)

/-- The files that may declare models, serializers and views. -/
def classFiles (files : AppFiles) (parsed : List File) : List File :=
  parsed.filter (isAmong (files.modelFiles ++ files.serializerFiles ++ files.viewFiles))

/-- The files that endpoints come from. -/
def routeFiles (files : AppFiles) (parsed : List File) : List File :=
  parsed.filter (isAmong (files.viewFiles ++ files.urlFiles))

/-- The classes that have a role. -/
def family (registry : Registry) (classes : List Declared) (role : Role) : List Declared :=
  classes.filter (registry.has · role)

def modelsOf (registry : Registry) (classes : List Declared) : List ClassFields :=
  Inheritance.resolve (family registry classes .model) (registry.fields · [])

/-- The fields of models by name. Of several models of one name it is the last. -/
def indexOf (models : List ClassFields) : ModelIndex :=
  (models.map fun model => (model.record.name, model.fields)).reverse

def serializersOf (registry : Registry) (classes : List Declared) (index : ModelIndex) :
    List ClassFields :=
  Inheritance.resolve (family registry classes .serializer) (registry.fields · index)

/-- The analysis of files that have been read, with the warnings about views. -/
def ofFiles (extra : Config.Extraction) (files : AppFiles) (parsed : List File) :
    App × List Warning :=
  let declaring := classFiles files parsed
  let routing := routeFiles files parsed
  let classes := Declared.ofFiles declaring
  let registry := (Registry.ofExtraction extra).register classes
  let models := modelsOf registry classes
  let (endpoints, warnings) := Endpoint.ofFiles registry routing
  ({ name := files.name
     rootPath := files.rootPath
     pythonFileCount := files.pythonFiles.length
     usesRestFramework := (Framework.detect declaring).contains .restFramework
     models
     serializers := serializersOf registry classes (indexOf models)
     views := (View.ofFiles registry routing).1
     endpoints }, warnings)

/-- The files that could be read. -/
def readable (read : List (Except Warning File)) : List File :=
  read.filterMap fun | .ok file => some file | .error _ => none

/-- The warnings about files that could not be read. -/
def unreadable (read : List (Except Warning File)) : List Warning :=
  read.filterMap fun | .ok _ => none | .error warning => some warning

/-- The analysis of an application, with the warnings about files that cannot
be read before those about views. -/
def analyze (extra : Config.Extraction) (tree : FileTree) (files : AppFiles) :
    App × List Warning :=
  let read := (roleFiles files).map (readFile tree)
  let (app, warnings) := ofFiles extra files (readable read)
  (app, unreadable read ++ warnings)

end App
end ApiScribe
