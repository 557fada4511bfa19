import ApiScribe.App.Analysis
import ApiScribe.TypeScript.Enumeration

/-! The module of an application: an interface with its variants and
enumerations for each serializer, and aliases for what endpoints take and give.
Serializers of all applications are known beforehand, so that a module can name
interfaces of another one; of several serializers of one name, the one in the
same application is meant. -/
namespace ApiScribe.TypeScript
open Text

/-- A serializer that other declarations may name. -/
structure KnownSerializer where
  name : String
  app : String
  interface : String
  /-- Whether there are variants for creating and updating. -/
  writable : Bool
  deriving DecidableEq, Repr

/-- Known serializers in the order in which they were registered. -/
abbrev SerializerIndex := List KnownSerializer

/-- The interface of a serializer class: its name without the word at its end. -/
def interfaceName (className : String) : String :=
  String.ofList (Naming.withoutTail "Serializer".toList className.toList)

namespace SerializerIndex

/-- The serializers of an application as others may name them. -/
def ofApp (app : App) : SerializerIndex :=
  app.serializers.map fun found =>
    { name := found.record.name
      app := app.name
      interface := interfaceName found.record.name
      writable := found.fields.any fun field => !field.readOnly }

def ofApps (apps : List App) : SerializerIndex := apps.flatMap ofApp

/-- The serializer that a class name means in an application. -/
def resolve? (index : SerializerIndex) (app : Option String) (className : String) :
    Option KnownSerializer :=
  let named := index.filter fun known => known.name == className
  (named.find? fun known => some known.app == app).or named.head?

end SerializerIndex

/-- The type of data, given the choices of its field. -/
def typeOf (resolve? : String → Option KnownSerializer) (choices : List Choice) :
    FieldType → TypeExpr
  | .string | .email | .url | .uuid | .slug | .date | .datetime | .time | .duration
  | .hyperlink => .name "string"
  | .integer | .float | .decimal => .name "number"
  | .boolean => .name "boolean"
  | .file | .image => .union [.name "File", .name "string"]
  | .json | .object => .anyObject
  | .primaryKey => .union [.name "number", .name "string"]
  | .choice =>
    if choices.isEmpty then .name "string"
    else .union (choices.map fun choice => .literal choice.value)
  | .nested className =>
    match resolve? className with
    | some known => .name known.interface
    | none => .any
  | .listOf item => .array (typeOf resolve? choices item)
  | .method | .unknown => .any

/-- The type of a field, with null if it may be null. -/
def typeOfField (resolve? : String → Option KnownSerializer) (field : Field) : TypeExpr :=
  let type := typeOf resolve? field.choices field.type
  if field.nullable then type.orNull else type

/-- The property of a field. What is only written may be left out, and so may
what is not required. -/
def propertyOf (resolve? : String → Option KnownSerializer) (field : Field) : Property :=
  { name := field.name
    expression := (typeOfField resolve? field).text
    optional := field.writeOnly || (!field.required && !field.readOnly)
    readOnly := field.readOnly }

/-- The interface of a serializer. -/
def interfaceOf (resolve? : String → Option KnownSerializer) (found : ClassFields) :
    Declaration :=
  { name := interfaceName found.record.name
    body := .interface (found.fields.map (propertyOf resolve?))
    description := found.record.docstring }

/-- A name with the module that declares it. -/
structure Reference where
  module : String
  name : String
  deriving DecidableEq, Repr

/-- The class that a type nests, at any depth of lists. -/
def nestedClass? : FieldType → Option String
  | .nested className => some className
  | .listOf item => nestedClass? item
  | _ => none

/-- The declarations of other serializers that the fields of one refer to. -/
def fieldReferences (resolve? : String → Option KnownSerializer) (fields : List Field) :
    List Reference :=
  fields.filterMap fun field =>
    ((nestedClass? field.type).bind resolve?).map fun known => ⟨known.app, known.interface⟩

/-- Whether an endpoint is that of a decorated function. -/
def isFunction (app : App) (endpoint : Endpoint) : Bool :=
  app.views.any fun view =>
    view.kind == .function && view.handlerClass == endpoint.handlerClass &&
      view.name == endpoint.handlerFunction

/-- Whether functions of one name are in several modules of an application. -/
def isShared (app : App) (function : String) : Bool :=
  let modules := (app.endpoints.filter fun endpoint =>
    isFunction app endpoint && endpoint.handlerFunction == function).map Endpoint.handlerClass
  1 < modules.eraseDups.length

/-- The name that the aliases of an endpoint begin with. A function stands alone
unless another module has one of its name. -/
def aliasStem (app : App) (endpoint : Endpoint) : String :=
  let owner :=
    if isFunction app endpoint && !isShared app endpoint.handlerFunction then []
    else Naming.pascal endpoint.handlerClass.toList
  String.ofList (owner ++ Naming.pascal endpoint.handlerFunction.toList)

/-- What an endpoint is sent, if its method sends anything. -/
def requestOf? (target : Option KnownSerializer) (method : HttpMethod) :
    Option (TypeExpr × List Reference) :=
  let variant? := match method with
    | .post => some Declaration.creationName
    | .put | .patch => some Declaration.updateName
    | .get | .delete => none
  variant?.map fun variantName =>
    match target with
    | some known =>
      if known.writable then
        let name := variantName known.interface
        (.name name, [⟨known.app, name⟩])
      else (.anyObject, [])
    | none => (.anyObject, [])

/-- What an endpoint gives back. -/
def responseOf (target : Option KnownSerializer) (endpoint : Endpoint) :
    TypeExpr × List Reference :=
  match target, endpoint.method with
  | _, .delete => (.name "void", [])
  | some known, method =>
    if method = .get && endpoint.handlerFunction == "list" then
      (.name (pageName ++ "<" ++ known.interface ++ ">"),
        [⟨known.app, known.interface⟩, ⟨commonModule, pageName⟩])
    else (.name known.interface, [⟨known.app, known.interface⟩])
  | none, _ => (.anyObject, [])

/-- The aliases of an endpoint and what they refer to. -/
def endpointAliases (index : SerializerIndex) (app : App) (endpoint : Endpoint) :
    List Declaration × List Reference :=
  let stem := aliasStem app endpoint
  let target := endpoint.serializerClass.bind (index.resolve? (some app.name))
  let signature := endpoint.method.name ++ " " ++ endpoint.path
  let response := responseOf target endpoint
  let responseAlias := Declaration.aliasOf (stem ++ "Response") response.1
    ("Response of " ++ signature)
  match requestOf? target endpoint.method with
  | none => ([responseAlias], response.2)
  | some request =>
    ([.aliasOf (stem ++ "Request") request.1 ("Request payload for " ++ signature),
      responseAlias], request.2 ++ response.2)

/-- Leaves out an alias that the last alias of its name already says. One that
says something else is kept, so that the clash is reported. -/
def withoutRepeats (latest : List (String × Body)) : List Declaration → List Declaration
  | [] => []
  | first :: rest =>
    if latest.lookup first.name = some first.body then withoutRepeats latest rest
    else first :: withoutRepeats ((first.name, first.body) :: latest) rest

/-- The imports of an application for its references to other modules, sorted. -/
def importsOf (app : String) (references : List Reference) : List Import :=
  let foreign := references.filter fun reference => reference.module != app
  (sortedDistinct (foreign.map Reference.module)).map fun module =>
    { module
      names := sortedDistinct ((foreign.filter fun reference => reference.module == module).map
        Reference.name) }

/-- The declarations that come from one serializer. -/
def serializerDeclarations (resolve? : String → Option KnownSerializer) (found : ClassFields) :
    List Declaration :=
  let declared := interfaceOf resolve? found
  declared :: declared.variants ++ enumerations found.record.name found.fields

/-- What the module of an application refers to, its own declarations included. -/
def referencesOf (index : SerializerIndex) (app : App) : List Reference :=
  app.serializers.flatMap (fun found =>
      fieldReferences (index.resolve? (some app.name)) found.fields) ++
    (app.endpoints.map (endpointAliases index app)).flatMap (·.2)

/-- The module of an application. -/
def moduleOf (index : SerializerIndex) (app : App) : Module :=
  { app := app.name
    declarations :=
      app.serializers.flatMap (serializerDeclarations (index.resolve? (some app.name))) ++
        withoutRepeats [] ((app.endpoints.map (endpointAliases index app)).flatMap (·.1))
    imports := importsOf app.name (referencesOf index app) }

/-- The modules of applications that know each other's serializers. -/
def modulesOf (apps : List App) : List Module := apps.map (moduleOf (.ofApps apps))

end ApiScribe.TypeScript
