import ApiScribe.App.Analysis
import ApiScribe.Document.Json
import ApiScribe.Document.Yaml

/-! Reports show everything that is known about a project, in one of two data
formats. -/
namespace ApiScribe

/-- Types that carry something say what they are of. -/
def FieldType.document : FieldType → Document
  | .nested serializer => .map [("kind", .str "nested"), ("of", .str serializer)]
  | .listOf item => .map [("kind", .str "list_of"), ("of", item.document)]
  | scalar => .map [("kind", .str scalar.tag)]

def Choice.document (choice : Choice) : Document :=
  .map [
    ("value", match choice.value with
      | .int number => .int number
      | .str text => .str text),
    ("label", .str choice.label)]

def Field.document (field : Field) : Document :=
  .map [
    ("name", .str field.name),
    ("semantic_type", field.type.document),
    ("required", .bool field.required),
    ("read_only", .bool field.readOnly),
    ("write_only", .bool field.writeOnly),
    ("nullable", .bool field.nullable),
    ("default", .optional .str field.default),
    ("help_text", .optional .str field.helpText),
    ("choices", .seq (field.choices.map Choice.document)),
    ("max_length", .optional .int field.maxLength),
    ("source", .optional .str field.source)]

def ClassRecord.document (record : ClassRecord) : Document :=
  .map [
    ("name", .str record.name),
    ("source_file", .str record.file),
    ("line", .int record.line),
    ("base_types", .strings record.bases),
    ("docstring", .optional .str record.docstring)]

def ClassFields.document (found : ClassFields) : Document :=
  .map [
    ("class", found.record.document),
    ("fields", .seq (found.fields.map Field.document))]

/-- The word for a kind of view. -/
def ViewKind.tag : ViewKind → String
  | .handler => "handler"
  | .generic => "generic"
  | .viewSet => "view_set"
  | .function => "function"

def HttpMethod.document (method : HttpMethod) : Document := .str method.name

def Handler.document (handler : Handler) : Document :=
  .map [
    ("method", handler.method.document),
    ("function", .str handler.function),
    ("docstring", .optional .str handler.docstring)]

def Action.document (action : Action) : Document :=
  .map [
    ("name", .str action.name),
    ("methods", .seq (action.methods.map HttpMethod.document)),
    ("detail", .bool action.detail),
    ("url_path", .optional .str action.urlPath),
    ("docstring", .optional .str action.docstring),
    ("custom", .bool action.custom)]

def View.document (view : View) : Document :=
  .map [
    ("name", .str view.name),
    ("source_file", .str view.file),
    ("line", .int view.line),
    ("kind", .str view.kind.tag),
    ("handler_class", .str view.handlerClass),
    ("docstring", .optional .str view.docstring),
    ("serializer_class", .optional .str view.serializerClass),
    ("model", .optional .str view.model),
    ("permission_classes", .strings view.permissionClasses),
    ("lookup_field", .str view.lookupField),
    ("handlers", .seq (view.handlers.map Handler.document)),
    ("actions", .seq (view.actions.map Action.document))]

def Endpoint.document (endpoint : Endpoint) : Document :=
  .map [
    ("path", .str endpoint.path),
    ("http_method", endpoint.method.document),
    ("handler_class", .str endpoint.handlerClass),
    ("handler_function", .str endpoint.handlerFunction),
    ("description", .str endpoint.description),
    ("serializer_class", .optional .str endpoint.serializerClass),
    ("permission_classes", .strings endpoint.permissionClasses)]

def App.document (app : App) : Document :=
  .map [
    ("name", .str app.name),
    ("root_path", .str app.rootPath),
    ("python_file_count", .int app.pythonFileCount),
    ("uses_rest_framework", .bool app.usesRestFramework),
    ("models", .seq (app.models.map ClassFields.document)),
    ("serializers", .seq (app.serializers.map ClassFields.document)),
    ("views", .seq (app.views.map View.document)),
    ("endpoints", .seq (app.endpoints.map Endpoint.document))]

def Project.document (project : Project) : Document :=
  .map [
    ("project_name", .str project.name),
    ("version", .str project.version),
    ("apps", .seq (project.apps.map App.document))]

/-- The data formats of a report. -/
inductive ReportFormat where
  | yaml
  | json
  deriving DecidableEq, Repr

namespace ReportFormat

def all : List ReportFormat := [.yaml, .json]

def name : ReportFormat → String
  | .yaml => "yaml"
  | .json => "json"

def ofName? (name : String) : Option ReportFormat :=
  all.find? fun format => format.name == name

end ReportFormat

/-- The report on a project. -/
def Project.report (project : Project) : ReportFormat → String
  | .yaml => project.document.yaml
  | .json => project.document.json

end ApiScribe
