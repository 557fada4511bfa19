import ApiScribe.Error
import ApiScribe.Schema.Registry
import ApiScribe.Web.Method

/-! Views: classes with handlers or actions and decorated functions. What a view
class serves depends on the framework base that it comes from. -/
namespace ApiScribe
open Text Source ApiScribe.Expr

/-- How a view binds methods to code. -/
inductive ViewKind where
  /-- One function for each method. -/
  | handler
  /-- A fixed table of methods that the framework handles. -/
  | generic
  /-- Actions that a router or a mapping binds. -/
  | viewSet
  /-- A decorated function. -/
  | function
  deriving DecidableEq, Repr

/-- A method with the code that handles it. -/
structure Handler where
  method : HttpMethod
  function : String
  docstring : Option String
  deriving DecidableEq, Repr

/-- An action of a viewset. Actions on one object stand below its key. -/
structure Action where
  name : String
  methods : List HttpMethod
  detail : Bool
  urlPath : Option String
  docstring : Option String
  custom : Bool
  deriving DecidableEq, Repr

/-- A view. Endpoints report `handlerClass`: the class or, for a function, its
module. -/
structure View where
  name : String
  file : String
  line : Nat
  kind : ViewKind
  handlerClass : String
  docstring : Option String := none
  serializerClass : Option String := none
  model : Option String := none
  permissionClasses : List String := []
  lookupField : String := "pk"
  handlers : List Handler := []
  actions : List Action := []
  deriving DecidableEq, Repr

namespace View

/-- The methods that a generic view class handles, with their actions. -/
def genericTable? : String → Option (List (HttpMethod × String))
  | "CreateAPIView" => some [(.post, "create")]
  | "ListAPIView" => some [(.get, "list")]
  | "RetrieveAPIView" => some [(.get, "retrieve")]
  | "UpdateAPIView" => some [(.put, "update"), (.patch, "partial_update")]
  | "DestroyAPIView" => some [(.delete, "destroy")]
  | "ListCreateAPIView" => some [(.get, "list"), (.post, "create")]
  | "RetrieveUpdateAPIView" =>
    some [(.get, "retrieve"), (.put, "update"), (.patch, "partial_update")]
  | "RetrieveDestroyAPIView" => some [(.get, "retrieve"), (.delete, "destroy")]
  | "RetrieveUpdateDestroyAPIView" =>
    some [(.get, "retrieve"), (.put, "update"), (.patch, "partial_update"), (.delete, "destroy")]
  | _ => none

def viewSetBases : List String :=
  ["ViewSetMixin", "ViewSet", "GenericViewSet", "ModelViewSet", "ReadOnlyModelViewSet"]

/-- The kind of a view class by its framework base. -/
def kindOf (root : String) : ViewKind :=
  if viewSetBases.contains root then .viewSet
  else if (genericTable? root).isSome then .generic
  else .handler

/-- An action that the framework provides, and whether it is on one object. -/
structure StandardAction where
  name : String
  method : HttpMethod
  detail : Bool

def standardActions : List StandardAction :=
  [⟨"list", .get, false⟩, ⟨"create", .post, false⟩, ⟨"retrieve", .get, true⟩,
    ⟨"update", .put, true⟩, ⟨"partial_update", .patch, true⟩, ⟨"destroy", .delete, true⟩]

/-- The standard actions that a framework base provides. -/
def baseActions : String → List String
  | "ModelViewSet" => standardActions.map StandardAction.name
  | "ReadOnlyModelViewSet" => ["list", "retrieve"]
  | _ => []

/-- The standard actions that a mixin provides. -/
def mixinActions : String → List String
  | "ListModelMixin" => ["list"]
  | "CreateModelMixin" => ["create"]
  | "RetrieveModelMixin" => ["retrieve"]
  | "UpdateModelMixin" => ["update", "partial_update"]
  | "DestroyModelMixin" => ["destroy"]
  | _ => []

/-- Functions that handle requests which have no endpoint. -/
def unsupportedHandlers : List String := ["head", "options", "trace"]

/-- The last names of the items of a list or tuple of names. -/
def classNames (value : Option Value) : List String :=
  ((value.bind Value.items?).getD []).filterMap fun item => item.asName?.map lastSegmentOf

/-- A name assigned in a class body, without its qualifiers. -/
def assignedName? (body : Block) (target : String) : Option String :=
  ((body.value? target).bind Value.asName?).map lastSegmentOf

private def opensName (word : List Char) : Bool :=
  match word with
  | [] => false
  | c :: _ => c.isAlpha || c == '_'

/-- The names at the beginning of segments between points. A segment with more
than a name in it ends the chain with its name. -/
def nameChain : List (List Char) → List (List Char)
  | [] => []
  | segment :: rest =>
    let word := segment.takeWhile isWordChar
    if !opensName word then []
    else if word.length = segment.length then word :: nameChain rest
    else [word]

/-- The name before the last `objects` of a chain of names. -/
def managerOwner? : List (List Char) → Option (List Char)
  | owner :: next :: rest =>
    (managerOwner? (next :: rest)).or
      (if next = "objects".toList then some owner else none)
  | _ => none

/-- The model that a queryset starts from. -/
def querysetModel? (text : String) : Option String :=
  (managerOwner? (nameChain (splitAt (· == '.') text.toList))).map String.ofList

/-- The model of a view body: that of its queryset or else the one it names. -/
def modelOf? (body : Block) : Option String :=
  let queryset := body.assignments.reverse.find? fun found => found.target == "queryset"
  (queryset.bind fun found => querysetModel? found.text).or (assignedName? body "model")

/-- The handlers that a class body defines itself, in the order of methods. -/
def definedHandlers (body : Block) (covered : List HttpMethod) : List Handler :=
  (HttpMethod.all.filter fun method => !covered.contains method).filterMap fun method =>
    (body.function? method.handlerName).map fun found => ⟨method, found.name, found.docstring⟩

/-- The handlers of a generic view. The class may document them under the name
of the action or of the method. -/
def genericHandlers (table : List (HttpMethod × String)) (body : Block) : List Handler :=
  let provided := table.map fun (method, action) =>
    let code := (body.function? action).or (body.function? method.handlerName)
    (⟨method, action, code.bind FunctionDef.docstring⟩ : Handler)
  provided ++ definedHandlers body (table.map (·.1))

/-- The methods among verbs, each once. -/
def methodsOf : List String → List HttpMethod
  | verbs => (verbs.filterMap HttpMethod.ofVerb?).eraseDups

/-- A warning for each verb that is no method. -/
def verbWarnings (file owner : String) (verbs : List String) : List Warning :=
  (verbs.filter fun verb => (HttpMethod.ofVerb? verb).isNone).map fun verb =>
    .unsupportedVerb file (HttpMethod.raised verb) owner

/-- The first decorator that is, or calls, a decorator of the given name. -/
def decorator? (found : FunctionDef) (name : String) : Option Value :=
  (found.decorators.map readText).find? fun decorator =>
    match decorator with
    | .call callee _ _ => lastSegmentOf callee == name
    | .name dotted => lastSegmentOf dotted == name
    | _ => false

/-- The verbs in an argument, or the verb of a decorator without one. -/
def verbsOf (argument : Option Value) (otherwise : String) : List String :=
  (argument.map Value.strings).getD [otherwise]

/-- The action that a decorated function of a viewset adds. -/
def customAction? (file : String) (found : FunctionDef) : Option (Action × List Warning) :=
  (decorator? found "action").map fun decorator =>
    let call := decorator.asCall?
    let verbs := verbsOf (call.bind (·.named? "methods")) "get"
    let path := (call.bind (·.named? "url_path")).bind Value.asString?
    let action : Action :=
      { name := found.name
        methods := methodsOf verbs
        detail := !call.any (·.flagFalse "detail")
        urlPath := some (path.getD found.name)
        docstring := found.docstring
        custom := true }
    (action, verbWarnings file found.name verbs)

/-- The standard actions that a viewset has: those of its framework base and of
its mixins and those that it defines. -/
def ownStandardActions (bases : List String) (root : String) (body : Block) : List Action :=
  let available := baseActions root ++ bases.flatMap (fun base => mixinActions (lastSegmentOf base)) ++
    body.functions.map FunctionDef.name
  (standardActions.filter fun action => available.contains action.name).map fun action =>
    { name := action.name
      methods := [action.method]
      detail := action.detail
      urlPath := none
      docstring := (body.function? action.name).bind FunctionDef.docstring
      custom := false }

/-- The view that a class is, with the warnings about its functions. -/
def ofClass (declared : Declared) (root : String) : View × List Warning :=
  let body := declared.definition.block
  let kind := kindOf root
  let custom := if kind = .viewSet then body.functions.filterMap (customAction? declared.file) else []
  let unsupported := (body.functions.filter fun found => unsupportedHandlers.contains found.name).map
    fun found => Warning.unsupportedVerb declared.file (HttpMethod.raised found.name) declared.name
  let view : View :=
    { name := declared.name
      file := declared.file
      line := declared.definition.line
      kind
      handlerClass := declared.name
      docstring := declared.definition.docstring
      serializerClass := assignedName? body "serializer_class"
      model := modelOf? body
      permissionClasses := classNames (body.value? "permission_classes")
      lookupField := ((body.value? "lookup_field").bind Value.asString?).getD "pk"
      handlers := match kind with
        | .handler => definedHandlers body []
        | .generic => genericHandlers ((genericTable? root).getD []) body
        | _ => []
      actions := if kind = .viewSet then
          ownStandardActions declared.bases root body ++ custom.map (·.1)
        else [] }
  (view, unsupported ++ custom.flatMap (·.2))

/-- The view that a decorated function is. -/
def ofFunction? (file : File) (found : FunctionDef) : Option (View × List Warning) :=
  (decorator? found "api_view").map fun decorator =>
    let verbs := verbsOf
      (decorator.asCall?.bind fun call => call.args.head?.or (call.named? "http_method_names")) "GET"
    let calls := (found.decorators.map readText).filterMap Value.asCall?
    let permissions := calls.find? fun call => call.shortName == "permission_classes"
    let view : View :=
      { name := found.name
        file := file.path
        line := found.line
        kind := .function
        handlerClass := file.moduleName
        docstring := found.docstring
        permissionClasses := (permissions.map fun call => classNames call.args.head?).getD []
        handlers := (methodsOf verbs).map fun method => ⟨method, found.name, found.docstring⟩ }
    (view, verbWarnings file.path found.name verbs)

/-- The views of a file in the order of their lines, and the warnings about
classes before those about functions. -/
def ofFile (registry : Registry) (file : File) : List View × List Warning :=
  let classes := (Declared.ofFiles [file]).filterMap fun declared =>
    (registry.rootBase? declared .view).map (ofClass declared)
  let functions := file.block.functions.filterMap (ofFunction? file)
  let found := classes ++ functions
  ((found.map (·.1)).mergeSort fun left right => left.line ≤ right.line, found.flatMap (·.2))

/-- The views of files, file by file. -/
def ofFiles (registry : Registry) (files : List File) : List View × List Warning :=
  let found := files.map (ofFile registry)
  (found.flatMap (·.1), found.flatMap (·.2))

end View
end ApiScribe
