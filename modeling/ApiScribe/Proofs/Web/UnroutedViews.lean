import ApiScribe.Proofs.NameLists
import ApiScribe.Proofs.Web.Endpoints

/-! Views that no route names. Their paths are made from their names, and different
names can make one path: each handler has an endpoint at the path of its view, but it
reports an earlier view where one is bound to that path and method before. -/
namespace ApiScribe
open Text
open Source (File Block)

namespace View
variable {view : View} {body : Block} {file : File} {registry : Registry} {files : List File}

/-! A view handles each method once. -/

private theorem method_definedHandlers (body : Block) (covered : List HttpMethod) :
    ((definedHandlers body covered).map Handler.method).Sublist
      (HttpMethod.all.filter fun method => !covered.contains method) := by
  rw [definedHandlers]
  generalize HttpMethod.all.filter (fun method => !covered.contains method) = methods
  induction methods with
  | nil => exact .slnil
  | cons method rest ih =>
    cases defined : body.function? method.handlerName with
    | none =>
      rw [List.filterMap_cons_none (by simp [defined])]
      exact ih.cons method
    | some found =>
      rw [List.filterMap_cons_some (by simp [defined]; rfl)]
      exact ih.cons_cons method

private theorem nodup_definedHandlers (body : Block) (covered : List HttpMethod) :
    ((definedHandlers body covered).map Handler.method).Nodup := by
  have distinct : HttpMethod.all.Nodup := by decide
  exact (distinct.filter _).sublist (method_definedHandlers body covered)

/-- A generic view adds handlers for methods that its table leaves out. -/
theorem nodup_genericHandlers {table : List (HttpMethod × String)}
    (distinct : (table.map (·.1)).Nodup) (body : Block) :
    ((genericHandlers table body).map Handler.method).Nodup := by
  rw [genericHandlers, List.map_append, List.map_map]
  change (table.map (·.1) ++ _).Nodup
  refine List.nodup_append'.mpr ⟨distinct, nodup_definedHandlers body _, fun method given own => ?_⟩
  have uncovered := (method_definedHandlers body _).subset own
  simpa [given] using (List.mem_filter.mp uncovered).2

private theorem nodup_genericTable? {root : String} {table : List (HttpMethod × String)}
    (listed : genericTable? root = some table) : (table.map (·.1)).Nodup := by
  rw [genericTable?.eq_def] at listed
  split at listed <;> cases listed <;> decide

private theorem nodup_ofClass (declared : Declared) (root : String) :
    ((ofClass declared root).1.handlers.map Handler.method).Nodup := by
  simp only [ofClass]
  split
  · exact nodup_definedHandlers _ []
  · refine nodup_genericHandlers ?_ _
    cases listed : genericTable? root with
    | none => exact List.nodup_nil
    | some table => exact nodup_genericTable? listed
  · exact List.nodup_nil

private theorem nodup_ofFunction? {found : Source.FunctionDef} {result : View × List Warning}
    (made : ofFunction? file found = some result) :
    (result.1.handlers.map Handler.method).Nodup := by
  obtain ⟨decorator, _, rfl⟩ := Option.map_eq_some_iff.mp made
  have methods (verbs : List String) : ((methodsOf verbs).map fun method =>
      (⟨method, found.name, found.docstring⟩ : Handler)).map Handler.method = methodsOf verbs := by
    rw [List.map_map]
    exact List.map_id _
  rw [methods]
  exact eraseDups_nodup _

private theorem nodup_methods (listed : view ∈ (ofFiles registry files).1) :
    (view.handlers.map Handler.method).Nodup := by
  obtain ⟨declared, _, root, _, rfl⟩ | ⟨_, _, _, _, _, made, rfl⟩ := mem_ofFiles.mp listed
  · exact nodup_ofClass declared root
  · exact nodup_ofFunction? made

/-! A view without a route is bound at its own path. -/

private theorem bindings_unrouted {routes : List Route}
    (unrouted : ∀ route ∈ routes, route.target.name ≠ view.name) :
    view.bindings routes = view.ownEndpoints := by
  have none : view.routesOf routes = [] := by
    rw [routesOf, List.filter_eq_nil_iff]
    intro route member
    simpa using unrouted route member
  rw [bindings, none]
  rfl

private theorem ownEndpoints_handlers (plain : view.kind ≠ .viewSet) :
    view.ownEndpoints = view.handlerEndpoints view.ownPath := if_neg plain

/-- The endpoint of a handler is the only one of its view for its method. -/
theorem find?_handlerEndpoints (distinct : (view.handlers.map Handler.method).Nodup)
    {handler : Handler} (handles : handler ∈ view.handlers) (path : String) :
    ∃ endpoint, (view.handlerEndpoints path).find?
        (fun bound => bound.key == (path, handler.method)) = some endpoint ∧
      endpoint.handlerClass = view.handlerClass ∧ endpoint.handlerFunction = handler.function := by
  cases found : (view.handlerEndpoints path).find?
      (fun bound => bound.key == (path, handler.method)) with
  | none =>
    have absent := List.find?_eq_none.mp found _ (List.mem_map_of_mem handles)
    exact absurd (beq_self_eq_true (path, handler.method)) absent
  | some endpoint =>
    obtain ⟨other, member, rfl⟩ := List.mem_map.mp (List.mem_of_find?_eq_some found)
    have hit := List.find?_some found
    have key : (path, other.method) = (path, handler.method) := eq_of_beq hit
    have same : other = handler :=
      List.inj_on_of_nodup_map distinct member handles (congrArg Prod.snd key)
    exact ⟨_, rfl, rfl, congrArg Handler.function same⟩

end View

namespace Endpoint
variable {view : View} {routes : List Route} {registry : Registry} {files : List File}
  {before after : List View}

/-- A view is the first that is bound under a key, unless one before it is. -/
theorem firstBound?_append {key : String × HttpMethod}
    (binds : ∃ bound ∈ view.bindings routes, bound.key = key) :
    firstBound? (before ++ view :: after) routes key =
      some ((firstBound? before routes key).getD view) := by
  obtain ⟨bound, member, same⟩ := binds
  have bindsKey : (view.bindings routes).any (fun bound => bound.key == key) = true :=
    List.any_eq_true.mpr ⟨bound, member, by simpa using same⟩
  have here : firstBound? (view :: after) routes key = some view :=
    List.find?_cons_of_pos bindsKey
  have joint : firstBound? (before ++ view :: after) routes key =
      (firstBound? before routes key).or (firstBound? (view :: after) routes key) :=
    List.find?_append
  rw [joint, here]
  cases firstBound? before routes key <;> rfl

/-- What stands under a key is a binding of the first view that is bound there. -/
theorem reported_first {views : List View} {first : View} {endpoint : Endpoint}
    (listed : endpoint ∈ ofViews views routes)
    (found : firstBound? views routes endpoint.key = some first) :
    (first.bindings routes).find? (fun bound => bound.key == endpoint.key) = some endpoint := by
  obtain ⟨other, bound, binding⟩ := mem_ofViews.mp listed
  rw [found] at bound
  cases bound
  exact binding

/-- Where no route names a view, each handler of a view has exactly one endpoint at the
path that the name of the view stands for. It reports the handler, unless an earlier view
is bound under that path and method: then it is a binding of the earliest such view. -/
theorem unrouted_handler_listed
    (split : (View.ofFiles registry files).1 = before ++ view :: after)
    (unrouted : ∀ other ∈ (View.ofFiles registry files).1, ∀ route ∈ UrlConf.routes files,
      route.target.name ≠ other.name)
    (plain : view.kind ≠ .viewSet) {handler : Handler} (handles : handler ∈ view.handlers) :
    ∃ endpoint ∈ (ofFiles registry files).1, endpoint.key = (view.ownPath, handler.method) ∧
      (∀ other ∈ (ofFiles registry files).1, other.key = endpoint.key → other = endpoint) ∧
      match firstBound? before (UrlConf.routes files) endpoint.key with
      | none => endpoint.handlerClass = view.handlerClass ∧
          endpoint.handlerFunction = handler.function
      | some earlier => earlier ∈ before ∧ endpoint ∈ earlier.ownEndpoints ∧
          endpoint.handlerClass = earlier.handlerClass := by
  have member : view ∈ (View.ofFiles registry files).1 := by simp [split]
  have own : view.bindings (UrlConf.routes files) = view.handlerEndpoints view.ownPath :=
    (View.bindings_unrouted (unrouted view member)).trans (View.ownEndpoints_handlers plain)
  have distinct := View.nodup_methods member
  obtain ⟨bound, first, owner, function⟩ :=
    View.find?_handlerEndpoints distinct handles view.ownPath
  have binds : bound ∈ view.bindings (UrlConf.routes files) :=
    own ▸ List.mem_of_find?_eq_some first
  have boundKey : bound.key = (view.ownPath, handler.method) := by
    simpa using List.find?_some first
  obtain ⟨endpoint, listed, key⟩ := listed_of_bound member binds
  refine ⟨endpoint, listed, key.trans boundKey, fun other also same => ?_, ?_⟩
  · exact List.inj_on_of_nodup_map (firstOfEach_distinct [] _) also listed same
  · have holder : firstBound? (View.ofFiles registry files).1 (UrlConf.routes files)
        endpoint.key =
          some ((firstBound? before (UrlConf.routes files) endpoint.key).getD view) := by
      rw [split]
      exact firstBound?_append ⟨bound, binds, key.symm⟩
    have reported := reported_first listed holder
    split
    · next free =>
      rw [free, Option.getD_none, own, key.trans boundKey, first] at reported
      cases reported
      exact ⟨owner, function⟩
    · next earlier claimed =>
      have stands : earlier ∈ before := List.mem_of_find?_eq_some claimed
      have known : earlier ∈ (View.ofFiles registry files).1 := by
        rw [split]
        exact List.mem_append_left _ stands
      rw [claimed, Option.getD_some, View.bindings_unrouted (unrouted earlier known)] at reported
      have bindsOwn := List.mem_of_find?_eq_some reported
      exact ⟨stands, bindsOwn, (View.ownEndpoints_bind bindsOwn).1⟩

/-- Two views whose names stand for one path. -/
def itemViews : List File :=
  [.ofText "shop/item_views.py" "class ItemView(APIView):\n  def get(self): pass\n",
    .ofText "shop/views.py" "class ItemAPIView(APIView):\n  def get(self): pass\n"]

/-- The first of the two keeps the path. -/
theorem item_view_listed : (∀ view ∈ (View.ofFiles (.ofExtraction {}) itemViews).1,
    ∀ route ∈ UrlConf.routes itemViews, route.target.name ≠ view.name) ∧
      ∃ endpoint ∈ (ofFiles (.ofExtraction {}) itemViews).1,
        endpoint.handlerClass = "ItemView" ∧ endpoint.handlerFunction = "get" := by
  have unrouted : ∀ view ∈ (View.ofFiles (.ofExtraction {}) itemViews).1,
      ∀ route ∈ UrlConf.routes itemViews, route.target.name ≠ view.name := by
    decide +kernel
  have first : ∀ view ∈ (View.ofFiles (.ofExtraction {}) itemViews).1.head?,
      view.kind ≠ .viewSet ∧ view.handlerClass = "ItemView" ∧
        ∃ handler ∈ view.handlers, handler.function = "get" := by
    decide +kernel
  have some : (View.ofFiles (.ofExtraction {}) itemViews).1 ≠ [] := by decide +kernel
  obtain ⟨view, after, split⟩ := List.exists_cons_of_ne_nil some
  obtain ⟨plain, owner, handler, handles, function⟩ := first view (by rw [split]; rfl)
  have alone : (View.ofFiles (.ofExtraction {}) itemViews).1 = [] ++ view :: after := split
  obtain ⟨endpoint, listed, _, _, reports⟩ :=
    unrouted_handler_listed alone unrouted plain handles
  exact ⟨unrouted, endpoint, listed, reports.1.trans owner, reports.2.trans function⟩

/-- The other one has no route either, and none of its handlers is listed. -/
theorem item_api_view_unlisted :
    ((View.ofFiles (.ofExtraction {}) itemViews).1.map View.name).Nodup ∧
      (∀ view ∈ (View.ofFiles (.ofExtraction {}) itemViews).1,
        ∀ route ∈ UrlConf.routes itemViews, route.target.name ≠ view.name) ∧
      ∃ view ∈ (View.ofFiles (.ofExtraction {}) itemViews).1, view.kind ≠ .viewSet ∧
        ∃ handler ∈ view.handlers, ¬ ∃ endpoint ∈ (ofFiles (.ofExtraction {}) itemViews).1,
          endpoint.handlerClass = view.handlerClass ∧ endpoint.method = handler.method ∧
            endpoint.handlerFunction = handler.function := by
  decide +kernel

end Endpoint
end ApiScribe
