import ApiScribe.Web.Endpoint

/-! Every path begins and ends with a slash, wherever it comes from: a pattern,
a registration below the path of its router, an action below its collection or
the name of a view. Paths are joined without any further look at the slashes,
so each way of making one has to keep both. -/
namespace ApiScribe
open Text Source

namespace Route

/-- A path that begins and ends with a slash, which may be the same one. -/
def Slashed (path : List Char) : Prop := path.head? = some '/' ∧ path.getLast? = some '/'

private theorem slashed_withSlashes (path : List Char) : Slashed (withSlashes path) := by
  have begins : (if path.head? = some '/' then path else '/' :: path).head? = some '/' := by
    by_cases head : path.head? = some '/'
    · rwa [if_pos head]
    · rw [if_neg head, List.head?_cons]
  simp only [withSlashes]
  generalize (if path.head? = some '/' then path else '/' :: path) = opened at begins ⊢
  by_cases last : opened.getLast? = some '/'
  · rw [if_pos last]
    exact ⟨begins, last⟩
  · rw [if_neg last]
    exact ⟨by rw [List.head?_append, begins, Option.some_or], List.getLast?_concat⟩

private theorem slashed_normalize (pattern : List Char) (regex : Bool) :
    Slashed (normalize pattern regex) :=
  slashed_withSlashes _

/-- A path stays slashed when something that begins with a slash, or nothing at
all, is put before it. -/
theorem Slashed.prepend {front path : List Char} (slashed : Slashed path)
    (opens : ∀ c, front.head? = some c → c = '/') : Slashed (front ++ path) := by
  refine ⟨?_, by rw [List.getLast?_append, slashed.2, Option.some_or]⟩
  rw [List.head?_append]
  cases first : front.head? with
  | none => rw [Option.none_or, slashed.1]
  | some c => rw [Option.some_or, opens c first]

/-- A path stays slashed when something that ends with a slash, or nothing at
all, is put after it. -/
theorem Slashed.append {path tail : List Char} (slashed : Slashed path)
    (closes : tail = [] ∨ tail.getLast? = some '/') : Slashed (path ++ tail) := by
  refine ⟨by rw [List.head?_append, slashed.1, Option.some_or], ?_⟩
  obtain rfl | closes := closes
  · rw [List.append_nil, slashed.2]
  · rw [List.getLast?_append, closes, Option.some_or]

/-- What is left of a path without its last slashes opens as the path does. -/
theorem head?_dropTrailing {c first : Char} {text : List Char}
    (head : (dropTrailing c text).head? = some first) : text.head? = some first := by
  obtain ⟨rest, whole⟩ := dropTrailing_prefix c text
  rw [← whole, List.head?_append, head, Option.some_or]

/-- A path is put behind another one without its last slashes. The special cases are no
exceptions to that. -/
theorem join_eq (base path : List Char) : join base path = dropTrailing '/' base ++ path := by
  rw [join]
  split
  · next empty => rcases empty with rfl | rfl <;> rfl
  · rfl

theorem slashed_join {base path : List Char} (opens : ∀ c, base.head? = some c → c = '/')
    (slashed : Slashed path) : Slashed (join base path) := by
  rw [join]
  split
  · exact slashed
  · exact slashed.prepend fun c head => opens c (head?_dropTrailing head)

end Route

namespace UrlConf
open Route (Slashed)

private theorem slashed_path (pattern : Pattern) :
    Slashed pattern.path := Route.slashed_normalize _ _

private theorem slashed_registration {call : Call}
    (read : registration? call = some (router, path, viewset)) : Slashed path := by
  rw [registration?] at read
  split at read
  · cases read
    exact Route.slashed_normalize _ _
  · cases read

/-- A router counts under the path of a pattern or, without an include, under
the empty path. -/
theorem routerPath?_opens {file : File} (included : routerPath? file router = some base)
    (c : Char) (head : base.head? = some c) : c = '/' := by
  rw [routerPath?] at included
  split at included
  · cases included
    generalize listed : (patterns file).filterMap _ = paths at head
    cases last : paths.getLast? with
    | none =>
      rw [last] at head
      cases head
    | some path =>
      have member : path ∈ (patterns file).filterMap _ := listed ▸ List.mem_of_getLast? last
      obtain ⟨⟨_, pattern⟩, _, chosen⟩ := List.mem_filterMap.mp member
      have chosenPath : some pattern.path = some path :=
        (Option.ite_none_right_eq_some.mp chosen).2
      rw [last, ← chosenPath, Option.getD_some, (slashed_path pattern).1] at head
      exact (Option.some.inj head).symm
  · cases included

private theorem slashed_patternRoutes {file : File} (member : route ∈ patternRoutes file) :
    Slashed route.path.toList := by
  obtain ⟨⟨_, pattern⟩, _, made⟩ := List.mem_filterMap.mp member
  obtain ⟨_, _, rfl⟩ := Option.map_eq_some_iff.mp made
  rw [String.toList_ofList]
  exact slashed_path pattern

private theorem slashed_routerRoutes {file : File} (member : route ∈ routerRoutes file) :
    Slashed route.path.toList := by
  obtain ⟨line, _, made⟩ := List.mem_filterMap.mp member
  obtain ⟨⟨router, path, viewset⟩, registered, placed⟩ := Option.bind_eq_some_iff.mp made
  obtain ⟨call, _, read⟩ := Option.bind_eq_some_iff.mp registered
  obtain ⟨base, included, rfl⟩ := Option.map_eq_some_iff.mp placed
  rw [String.toList_ofList]
  exact Route.slashed_join (routerPath?_opens included) (slashed_registration read)

/-- Sorting neither adds nor loses a route. -/
theorem mem_routes {files : List File} :
    route ∈ routes files ↔
      ∃ file ∈ files, route ∈ patternRoutes file ∨ route ∈ routerRoutes file := by
  simp only [routes, List.mem_map, List.mem_mergeSort, List.mem_append, List.mem_flatMap]
  constructor
  · rintro ⟨_, ⟨_, ⟨file, member, listed⟩ | ⟨file, member, listed⟩, rfl⟩, rfl⟩
    · exact ⟨file, member, .inl listed⟩
    · exact ⟨file, member, .inr listed⟩
  · rintro ⟨file, member, listed | listed⟩
    · exact ⟨_, ⟨route, .inl ⟨file, member, listed⟩, rfl⟩, rfl⟩
    · exact ⟨_, ⟨route, .inr ⟨file, member, listed⟩, rfl⟩, rfl⟩

theorem slashed_routes {files : List File} (member : route ∈ routes files) :
    Slashed route.path.toList := by
  obtain ⟨file, _, listed | listed⟩ := mem_routes.mp member
  · exact slashed_patternRoutes listed
  · exact slashed_routerRoutes listed

end UrlConf

namespace View
open Route (Slashed)

section
variable {view : View} {endpoint : Endpoint} {route : Route} {path : String}

private theorem closes_append (text tail : String) (closes : tail.toList.getLast? = some '/') :
    (text ++ tail).toList.getLast? = some '/' := by
  rw [String.toList_append, List.getLast?_append, closes, Option.some_or]

/-- An action adds nothing to its collection or segments that end with a slash. -/
theorem slashed_actionPath (slashed : Slashed path.toList) (view : View) (action : Action) :
    Slashed (view.actionPath action path).toList := by
  rw [actionPath, String.toList_append, String.toList_append]
  refine (slashed.append ?_).append ?_
  · split
    · exact .inr (closes_append _ _ rfl)
    · exact .inl rfl
  · split
    · exact .inr (closes_append _ _ rfl)
    · exact .inl rfl

private theorem slashed_ownPath (view : View) : Slashed view.ownPath.toList := by
  refine ⟨?_, closes_append _ _ rfl⟩
  simp [ownPath]

/-- Bindings report the view that they are of, at paths with both slashes. -/
def BindsFor (view : View) (endpoint : Endpoint) : Prop :=
  endpoint.handlerClass = view.handlerClass ∧ Slashed endpoint.path.toList

private theorem handlerEndpoints_bind (slashed : Slashed path.toList)
    (member : endpoint ∈ view.handlerEndpoints path) : view.BindsFor endpoint := by
  obtain ⟨handler, _, rfl⟩ := List.mem_map.mp member
  exact ⟨rfl, slashed⟩

private theorem actionEndpoints_bind (slashed : Slashed path.toList)
    (member : endpoint ∈ view.actions.flatMap (view.actionEndpoints path)) :
    view.BindsFor endpoint := by
  obtain ⟨action, _, listed⟩ := List.mem_flatMap.mp member
  obtain ⟨method, _, rfl⟩ := List.mem_map.mp listed
  exact ⟨rfl, slashed_actionPath slashed view action⟩

private theorem mappedEndpoints_bind (slashed : Slashed path.toList)
    (member : endpoint ∈ view.mappedEndpoints path mapping) : view.BindsFor endpoint := by
  obtain ⟨⟨verb, name⟩, _, made⟩ := List.mem_filterMap.mp member
  obtain ⟨method, _, rfl⟩ := Option.map_eq_some_iff.mp made
  exact ⟨rfl, slashed⟩

theorem ownEndpoints_bind (member : endpoint ∈ view.ownEndpoints) : view.BindsFor endpoint := by
  rw [ownEndpoints] at member
  split at member
  · exact actionEndpoints_bind view.slashed_ownPath member
  · exact handlerEndpoints_bind view.slashed_ownPath member

private theorem routedEndpoints_bind (slashed : Slashed route.path.toList)
    (member : endpoint ∈ view.routedEndpoints route) : view.BindsFor endpoint := by
  rw [routedEndpoints] at member
  split at member <;> split at member
  · exact actionEndpoints_bind slashed member
  · cases member
  · exact mappedEndpoints_bind slashed member
  · exact handlerEndpoints_bind slashed member

/-- Whatever a view is bound to, by routes or by its name, reports the view. -/
theorem bindings_bind {routes : List Route} (slashed : ∀ route ∈ routes, Slashed route.path.toList)
    (member : endpoint ∈ view.bindings routes) : view.BindsFor endpoint := by
  rw [bindings] at member
  split at member
  · exact ownEndpoints_bind member
  · obtain ⟨route, named, listed⟩ := List.mem_flatMap.mp member
    exact routedEndpoints_bind (slashed route (List.mem_filter.mp named).1) listed

end
end View
end ApiScribe
