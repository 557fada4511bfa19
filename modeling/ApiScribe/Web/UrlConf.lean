import ApiScribe.Source.File
import ApiScribe.Web.Route

/-! URL configuration of files: the entries of `urlpatterns` and the viewsets
that routers register. A router counts under the prefix where its URLs are
included, of several includes under the last. -/
namespace ApiScribe
open Text Source ApiScribe.Expr

/-- What a route leads to. -/
inductive RouteTarget where
  /-- A view, with the pairs of verb and action that a viewset is given. -/
  | view (name : String) (mapping : List (String × String))
  /-- A viewset on a router. -/
  | router (name : String)
  deriving DecidableEq, Repr

def RouteTarget.name : RouteTarget → String
  | .view name _ => name
  | .router name => name

/-- A path that leads to a view. -/
structure Route where
  path : String
  target : RouteTarget
  file : String
  line : Nat
  deriving DecidableEq, Repr

namespace UrlConf

/-- The values in the lists that make up `urlpatterns`, each with its line. -/
def entries (file : File) : List (Nat × Value) :=
  (file.block.assignments.filter fun found => found.target == "urlpatterns").flatMap fun found =>
    (splitTopLevel '+' found.text.toList).flatMap fun part =>
      let value := read part
      (value.items?.getD [value]).map fun item => (found.line, item)

/-- An entry that calls a pattern function. -/
structure Pattern where
  regex : Bool
  route : String
  view : Value

def patternFunctions : List String := ["path", "re_path", "url"]

/-- Reads a call of a pattern function. Its arguments may be named. -/
def Pattern.ofValue? (entry : Value) : Option Pattern :=
  entry.asCall?.bind fun call =>
    if !patternFunctions.contains call.shortName then none
    else
      let route := (call.args.head?.or (call.named? "route")).bind Value.asString?
      let view := call.args[1]?.or (call.named? "view")
      match route, view with
      | some route, some view => some ⟨call.shortName != "path", route, view⟩
      | _, _ => none

def Pattern.path (pattern : Pattern) : List Char :=
  Route.normalize pattern.route.toList pattern.regex

def patterns (file : File) : List (Nat × Pattern) :=
  (entries file).filterMap fun (line, entry) =>
    (Pattern.ofValue? entry).map fun pattern => (line, pattern)

/-- Drops a tail as often as a text ends with it. -/
def dropTails (tail : List Char) : Nat → List Char → List Char
  | 0, text => text
  | times + 1, text =>
    match dropTail? tail text with
    | some shorter => dropTails tail times shorter
    | none => text

/-- The view class of a callee such as `views.OrderView.as_view`. -/
def viewClass? (callee : String) : Option String :=
  if endsWith callee ".as_view" then
    let text := callee.toList
    some (lastSegmentOf (String.ofList (dropTails ".as_view".toList text.length text)))
  else none

/-- The pairs of verb and action that `as_view` is given. -/
def actionMapping (call : Call) : List (String × String) :=
  match call.args.head?.or (call.named? "actions") with
  | some (.dict entries) => entries.filterMap fun (verb, action) =>
    match verb.asString?, action.asString? with
    | some verb, some action => some (verb, action)
    | _, _ => none
  | _ => []

/-- The view that a pattern names. -/
def viewTarget? : Value → Option RouteTarget
  | .name dotted => some (.view (lastSegmentOf dotted) [])
  | .call callee args named =>
    (viewClass? callee).map fun name => .view name (actionMapping ⟨callee, args, named⟩)
  | _ => none

/-- The routes that the patterns of a file declare. -/
def patternRoutes (file : File) : List Route :=
  (patterns file).filterMap fun (line, pattern) =>
    (viewTarget? pattern.view).map fun target =>
      ⟨String.ofList pattern.path, target, file.path, line⟩

/-- The names that routers are assigned to in a file. -/
def routers (file : File) : List String :=
  file.block.assignments.filterMap fun found =>
    found.value.asCall?.bind fun call =>
      if endsWith call.shortName "Router" then some found.target else none

/-- The router whose URLs a view argument includes. -/
def includedRouter? (view : Value) : Option String :=
  (view.asCall?.filter fun call => call.shortName == "include").bind fun call =>
    (call.args.head?.bind Value.asName?).bind fun name =>
      (dropTail? ".urls".toList name.toList).map String.ofList

/-- The path that a router is included under, if it is a router of the file. -/
def routerPath? (file : File) (router : String) : Option (List Char) :=
  if (routers file).contains router then
    let included := (patterns file).filterMap fun (_, pattern) =>
      if includedRouter? pattern.view == some router then some pattern.path else none
    some (included.getLast?.getD [])
  else none

/-- A viewset that a call registers, with its path below the router. -/
def registration? (call : Call) : Option (String × List Char × String) :=
  match dropTail? ".register".toList call.callee.toList,
    (call.args.head?.or (call.named? "prefix")).bind Value.asString?,
    (call.args[1]?.or (call.named? "viewset")).bind Value.asName? with
  | some router, some path, some viewset =>
    some (String.ofList router, Route.normalize path.toList true, lastSegmentOf viewset)
  | _, _, _ => none

/-- The routes that the routers of a file register. -/
def routerRoutes (file : File) : List Route :=
  file.block.expressions.filterMap fun line =>
    ((read line.text).asCall?.bind registration?).bind fun (router, path, viewset) =>
      (routerPath? file router).map fun base =>
        ⟨String.ofList (Route.join base path), .router viewset, file.path, line.number⟩

/-- The first place of a file of the same path among files. -/
def filePlace (files : List File) (path : String) : Nat :=
  files.findIdx fun file => Path.same file.path path

/-- All routes of files in the order of files and lines. On one line, patterns
stand before registrations. -/
def routes (files : List File) : List Route :=
  let found := files.flatMap patternRoutes ++ files.flatMap routerRoutes
  let keyed := found.map fun route => (filePlace files route.file, route)
  (keyed.mergeSort fun (leftPlace, left) (rightPlace, right) =>
    leftPlace < rightPlace || (leftPlace == rightPlace && left.line ≤ right.line)).map (·.2)

end UrlConf
end ApiScribe
