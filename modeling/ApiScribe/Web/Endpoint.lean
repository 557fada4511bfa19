import ApiScribe.Naming
import ApiScribe.Web.UrlConf
import ApiScribe.Web.View

/-! Endpoints: views bound to the routes that name them. A view without a route
gets a path made from its name. Where two bindings share path and method the
first one counts. -/
namespace ApiScribe
open Text
open Source (File)

/-- A path and method with the code that answers. -/
structure Endpoint where
  path : String
  method : HttpMethod
  handlerClass : String
  handlerFunction : String
  description : String := ""
  serializerClass : Option String := none
  permissionClasses : List String := []
  deriving DecidableEq, Repr

/-- The first paragraph of a docstring on one line. -/
def summary? (docstring : Option String) : Option String :=
  docstring.bind fun text =>
    let paragraph := match cutAt? ['\n', '\n'] text.toList with
      | some (first, _) => first
      | none => text.toList
    let line := joined [' '] ((lines paragraph).map trim)
    if line.isEmpty then none else some (String.ofList line)

namespace View

/-- What the requests of a view are about. -/
def subject (view : View) : String :=
  match view.model with
  | some model => model
  | none => if view.kind = .function then view.name else "resource"

def endpoint (view : View) (path : String) (method : HttpMethod) (function : String)
    (description : String) : Endpoint :=
  { path, method
    handlerClass := view.handlerClass
    handlerFunction := function
    description
    serializerClass := view.serializerClass
    permissionClasses := view.permissionClasses }

/-- The endpoints of the handlers of a view at a path. -/
def handlerEndpoints (view : View) (path : String) : List Endpoint :=
  view.handlers.map fun handler =>
    view.endpoint path handler.method handler.function
      ((summary? handler.docstring).getD
        (handler.method.describe handler.function view.subject))

private def dropSlashes (text : List Char) : List Char :=
  dropTrailing '/' (text.dropWhile (· == '/'))

/-- The path of an action below the path of its collection. -/
def actionPath (view : View) (action : Action) (collection : String) : String :=
  let object := if action.detail then "\x7b" ++ view.lookupField ++ "\x7d/" else ""
  let own := match action.urlPath with
    | some path => String.ofList (dropSlashes path.toList) ++ "/"
    | none => ""
  collection ++ object ++ own

/-- The endpoints of an action below the path of its collection. -/
def actionEndpoints (view : View) (collection : String) (action : Action) : List Endpoint :=
  action.methods.map fun method =>
    view.endpoint (view.actionPath action collection) method action.name
      ((summary? action.docstring).getD
        (if action.custom then "Custom action: " ++ action.name
        else method.describe action.name view.subject))

/-- The endpoints that a mapping of verbs to actions binds. -/
def mappedEndpoints (view : View) (path : String) (mapping : List (String × String)) :
    List Endpoint :=
  mapping.filterMap fun (verb, name) => (HttpMethod.ofVerb? verb).map fun method =>
    let action := view.actions.find? fun action => action.name == name
    view.endpoint path method name
      ((summary? (action.bind Action.docstring)).getD (method.describe name view.subject))

/-- The words that a view name may end in. -/
def nameEndings : List String := ["ViewSet", "APIView", "View"]

/-- The path of a view that no route names. -/
def ownPath (view : View) : String :=
  let name := view.name.toList
  let shortened := nameEndings.findSome? fun ending =>
    (dropTail? ending.toList name).filter fun stem => !stem.isEmpty
  "/" ++ String.ofList (Naming.kebab (shortened.getD name)) ++ "/"

/-- All endpoints of a view at a path that is not routed to. -/
def ownEndpoints (view : View) : List Endpoint :=
  if view.kind = .viewSet then view.actions.flatMap (view.actionEndpoints view.ownPath)
  else view.handlerEndpoints view.ownPath

/-- The endpoints that a route gives a view. Only viewsets are registered on
routers, and only they are given mappings. -/
def routedEndpoints (view : View) (route : Route) : List Endpoint :=
  match route.target with
  | .router _ =>
    if view.kind = .viewSet then view.actions.flatMap (view.actionEndpoints route.path) else []
  | .view _ mapping =>
    if view.kind = .viewSet then view.mappedEndpoints route.path mapping
    else view.handlerEndpoints route.path

/-- A warning for each verb of a mapping that is no method. -/
def routeWarnings (view : View) (route : Route) : List Warning :=
  match route.target with
  | .router _ => []
  | .view _ mapping =>
    if view.kind = .viewSet then verbWarnings route.file view.name (mapping.map (·.1)) else []

/-- The routes that name a view. -/
def routesOf (view : View) (routes : List Route) : List Route :=
  routes.filter fun route => route.target.name == view.name

/-- Every binding of a view, before repeated ones are dropped. -/
def bindings (routes : List Route) (view : View) : List Endpoint :=
  let named := view.routesOf routes
  if named.isEmpty then view.ownEndpoints else named.flatMap view.routedEndpoints

end View

namespace Endpoint

/-- What no two endpoints share. -/
def key (endpoint : Endpoint) : String × HttpMethod := (endpoint.path, endpoint.method)

/-- The first endpoint of each key that is not among `seen`. -/
def firstOfEach (seen : List (String × HttpMethod)) : List Endpoint → List Endpoint
  | [] => []
  | endpoint :: rest =>
    if seen.contains endpoint.key then firstOfEach seen rest
    else endpoint :: firstOfEach (endpoint.key :: seen) rest

/-- The endpoints of views under routes. -/
def ofViews (views : List View) (routes : List Route) : List Endpoint :=
  firstOfEach [] (views.flatMap (View.bindings routes))

/-- The endpoints of files, and the warnings about views before those about
routes. -/
def ofFiles (registry : Registry) (files : List File) : List Endpoint × List Warning :=
  let (views, warnings) := View.ofFiles registry files
  let routes := UrlConf.routes files
  let mapped := views.flatMap fun view =>
    (view.routesOf routes).flatMap view.routeWarnings
  (ofViews views routes, warnings ++ mapped)

end Endpoint
end ApiScribe
