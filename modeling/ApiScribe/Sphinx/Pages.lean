import ApiScribe.App.Analysis
import ApiScribe.Config.Basic
import ApiScribe.Output

/-! Pages of the documentation in reStructuredText: an index, a page for each
application and the settings of the builder. A heading is underlined to its
length in characters, and a field's notes stay on one line, since a table cell
ends with its line. -/
namespace ApiScribe.Sphinx
open Text

/-- A title with its underline. -/
def heading (title : String) (mark : Char) : List String :=
  [title, String.ofList (List.replicate title.length mark)]

def code (text : String) : String := "``" ++ text ++ "``"

/-- Help text on one line that ends as a sentence does. -/
def sentence (text : String) : String :=
  let line := joined [' '] (words text.toList)
  if line.getLast?.any fun c => c == '.' || c == '!' || c == '?' then String.ofList line
  else String.ofList (line ++ ['.'])

/-- What the table of fields says about a field beside its type. -/
def notes (field : Field) : List String :=
  (field.helpText.toList.map sentence) ++
    (if field.readOnly then ["Read-only."] else []) ++
    (if field.writeOnly then ["Write-only."] else []) ++
    (if field.nullable then ["Nullable."] else []) ++
    (field.maxLength.toList.map fun length => "Max length " ++ toString length ++ ".") ++
    (field.default.toList.map fun text => "Default " ++ code text ++ ".") ++
    (if field.choices.isEmpty then []
    else ["Choices: " ++ ", ".intercalate
      (field.choices.map fun choice => code choice.value.text) ++ "."])

/-- The rows of a field in the table of its class. -/
def fieldRows (field : Field) : List String :=
  let note := " ".intercalate (notes field)
  ["   * - " ++ code field.name,
    "     - " ++ code field.type.text,
    "     - " ++ (if field.required && !field.readOnly then "yes" else "no"),
    "     -" ++ (if note.isEmpty then "" else " " ++ note)]

def fieldTable (fields : List Field) : List String :=
  ["", ".. list-table::", "   :header-rows: 1", "   :widths: 20 20 10 50", "",
    "   * - Field", "     - Type", "     - Required", "     - Notes"] ++
    fields.flatMap fieldRows

/-- The path of a source file as it is shown: below the directory that holds
the application, if it lies there. -/
def shownPath (packageRoot path : String) : String :=
  let shown := (Path.below? packageRoot path).getD path
  String.ofList (shown.toList.map fun c => if c = '\\' then '/' else c)

/-- The section of a serializer or model. -/
def classSection (packageRoot : String) (found : ClassFields) : List String :=
  let docstring := found.record.docstring.getD ""
  "" :: heading found.record.name '~' ++ [""] ++
    (if docstring.isEmpty then [] else [docstring, ""]) ++
    ["Defined in " ++ code (shownPath packageRoot found.record.file) ++ ", line " ++
      toString found.record.line ++ "."] ++
    (if found.fields.isEmpty then [] else fieldTable found.fields)

/-- The section of an endpoint. -/
def endpointSection (endpoint : Endpoint) : List String :=
  let serializer := endpoint.serializerClass.getD ""
  "" :: heading (endpoint.method.name ++ " " ++ endpoint.path) '~' ++
    ["", endpoint.description, "",
      ":Handler: " ++ code (endpoint.handlerClass ++ "." ++ endpoint.handlerFunction)] ++
    (if serializer.isEmpty then [] else [":Serializer: " ++ code serializer]) ++
    (if endpoint.permissionClasses.isEmpty then []
    else [":Permissions: " ++ ", ".intercalate (endpoint.permissionClasses.map code)])

/-- A chapter with its sections. A chapter without any is left out. -/
def chapter (title : String) (sections : List (List String)) : List String :=
  if sections.isEmpty then [] else "" :: heading title '-' ++ sections.flatten

/-- The page of an application. -/
def appPage (app : App) : String :=
  let packageRoot := (Path.parent? app.rootPath).getD ""
  unlines (heading (String.ofList (Naming.title app.name.toList) ++ " API") '=' ++
    ["", "Source package " ++ code app.name ++ ", " ++ toString app.pythonFileCount ++
      " Python files."] ++
    chapter "Endpoints" (app.endpoints.map endpointSection) ++
    chapter "Serializers" (app.serializers.map (classSection packageRoot)) ++
    chapter "Models" (app.models.map (classSection packageRoot)))

/-- The rows of an application in the summary of the index. -/
def summaryRows (app : App) : List String :=
  ["   * - :doc:\x60apps/" ++ app.name ++ "\x60",
    "     - " ++ toString app.endpoints.length,
    "     - " ++ toString app.serializers.length,
    "     - " ++ toString app.models.length]

/-- The first page. -/
def indexPage (config : Config) (apps : List App) : String :=
  unlines (heading config.projectName '=' ++ [""] ++
    (if config.description.isEmpty then [] else [config.description, ""]) ++
    [":Version: " ++ config.version] ++
    (if config.author.isEmpty then [] else [":Author: " ++ config.author]) ++
    ["", ".. toctree::", "   :maxdepth: 2", "   :caption: Applications", ""] ++
    (apps.map fun app => "   apps/" ++ app.name) ++
    [""] ++ heading "Summary" '-' ++
    ["", ".. list-table::", "   :header-rows: 1", "", "   * - Application",
      "     - Endpoints", "     - Serializers", "     - Models"] ++
    apps.flatMap summaryRows)

/-- A character inside a string of the settings. -/
def escapeSetting (c : Char) : List Char :=
  if c = '\\' then ['\\', '\\']
  else if c = '\'' then ['\\', '\'']
  else if c = '\n' then ['\\', 'n']
  else if c = '\r' then ['\\', 'r']
  else if c = '\t' then ['\\', 't']
  else [c]

/-- A string as a literal of the settings, on one line whatever it holds. -/
def settingText (value : List Char) : List Char := '\'' :: value.flatMap escapeSetting ++ ['\'']

/-- The line that sets a name to a string. -/
def setting (name value : String) : String :=
  name ++ " = " ++ String.ofList (settingText value.toList)

/-- The settings of the documentation builder. -/
def settingsPage (config : Config) : String :=
  unlines ["# Configuration file for the Sphinx documentation builder.", "",
    setting "project" config.projectName,
    setting "author" config.author,
    setting "version" config.version,
    "release = version", "",
    "extensions = [", "    'sphinx.ext.autodoc',", "    'sphinx.ext.viewcode',", "]", "",
    "templates_path = ['_templates']",
    "exclude_patterns = ['_build', 'Thumbs.db', '.DS_Store']", "",
    "html_theme = 'alabaster'", "html_title = project + ' ' + release"]

/-- All pages of applications. -/
def emissions (config : Config) (apps : List App) : List Emission :=
  let directory := config.output.sphinxDir
  .file (Path.join directory "index.rst") (indexPage config apps) ::
    (apps.map fun app =>
      .file (Path.join (Path.join directory "apps") (app.name ++ ".rst")) (appPage app)) ++
    [.file (Path.join directory "conf.py") (settingsPage config)]

end ApiScribe.Sphinx
