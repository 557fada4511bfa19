import ApiScribe.Proofs.Web.Endpoints

/-! Routes against made-up paths. Both kinds of bindings take part alike when
the first one of a path and method is chosen, so a view without a route that
stands early enough in the source takes the path that a route gives to another
view. This is the only way in which a route is lost. -/
namespace ApiScribe.Endpoint
open Source (File)

/-- Some route binds a view to a path: it has the path itself and names the
view, or it gives the view an endpoint there. -/
def RoutedTo (routes : List Route) (view : View) (path : String) : Prop :=
  ∃ route ∈ view.routesOf routes, route.path = path ∨
    ∃ bound ∈ view.routedEndpoints route, bound.path = path

instance (routes : List Route) (view : View) (path : String) :
    Decidable (RoutedTo routes view path) :=
  inferInstanceAs (Decidable (∃ route ∈ view.routesOf routes, route.path = path ∨
    ∃ bound ∈ view.routedEndpoints route, bound.path = path))

section
variable (registry : Registry) (files : List File) (key : String × HttpMethod)

/-- The endpoint of a key reports a view that some route binds to its path. -/
def RouteKept : Prop :=
  ∃ endpoint ∈ (ofFiles registry files).1, endpoint.key = key ∧
    ∃ view ∈ (View.ofFiles registry files).1, endpoint.handlerClass = view.handlerClass ∧
      RoutedTo (UrlConf.routes files) view key.1

instance : Decidable (RouteKept registry files key) :=
  inferInstanceAs (Decidable (∃ endpoint ∈ (ofFiles registry files).1, endpoint.key = key ∧
    ∃ view ∈ (View.ofFiles registry files).1, endpoint.handlerClass = view.handlerClass ∧
      RoutedTo (UrlConf.routes files) view key.1))

/-- The first view that is bound under a key has no route and got there by its
name. No view that a route binds to the path reports the same handler, as
functions of one module would. -/
def Displaced : Prop :=
  ∃ first ∈ firstBound? (View.ofFiles registry files).1 (UrlConf.routes files) key,
    first.routesOf (UrlConf.routes files) = [] ∧
      ∀ view ∈ (View.ofFiles registry files).1,
        RoutedTo (UrlConf.routes files) view key.1 → view.handlerClass ≠ first.handlerClass

instance : Decidable (Displaced registry files key) :=
  inferInstanceAs (Decidable (∃ first ∈
    firstBound? (View.ofFiles registry files).1 (UrlConf.routes files) key,
      first.routesOf (UrlConf.routes files) = [] ∧
        ∀ view ∈ (View.ofFiles registry files).1,
          RoutedTo (UrlConf.routes files) view key.1 → view.handlerClass ≠ first.handlerClass))

end

variable {routes : List Route} {view : View} {route : Route} {endpoint : Endpoint}
  {registry : Registry} {files : List File}

/-- A view that is named by a pattern has an endpoint for each of its handlers
at the path of the pattern. -/
theorem bound_of_pattern (plain : view.kind ≠ .viewSet) (handles : handler ∈ view.handlers)
    (listed : route ∈ routes) (target : route.target = .view view.name mapping) :
    ∃ bound ∈ view.bindings routes, bound.key = (route.path, handler.method) := by
  have named : route ∈ view.routesOf routes := by
    simp [View.routesOf, listed, target, RouteTarget.name]
  have routed : view.routedEndpoints route = view.handlerEndpoints route.path := by
    rw [View.routedEndpoints, target]
    exact if_neg plain
  have handled : ∃ bound ∈ view.handlerEndpoints route.path,
      bound.key = (route.path, handler.method) :=
    ⟨_, List.mem_map_of_mem handles, rfl⟩
  obtain ⟨bound, given, key⟩ := handled
  refine ⟨bound, ?_, key⟩
  rw [View.bindings, if_neg (by simpa using List.ne_nil_of_mem named)]
  exact List.mem_flatMap.mpr ⟨route, named, routed ▸ given⟩

/-- The binding of a routed view is made by one of its routes. -/
theorem routedTo_of_binds (routed : view.routesOf routes ≠ [])
    (binds : endpoint ∈ view.bindings routes) : RoutedTo routes view endpoint.path := by
  rw [View.bindings, if_neg (by simpa using routed)] at binds
  obtain ⟨route, named, given⟩ := List.mem_flatMap.mp binds
  exact ⟨route, named, .inr ⟨endpoint, given, rfl⟩⟩

/-- A listed endpoint reports the first view that is bound under its key. -/
theorem reports_firstBound (listed : endpoint ∈ (ofFiles registry files).1) :
    ∃ first, firstBound? (View.ofFiles registry files).1 (UrlConf.routes files) endpoint.key =
        some first ∧ endpoint ∈ first.bindings (UrlConf.routes files) ∧
      endpoint.handlerClass = first.handlerClass := by
  obtain ⟨first, found, binding⟩ := mem_ofViews.mp listed
  have binds := List.mem_of_find?_eq_some binding
  exact ⟨first, found, binds, (View.bindings_bind (fun _ => UrlConf.slashed_routes) binds).1⟩

/-- A listed endpoint reports a routed view unless its key is displaced. -/
theorem routeKept_iff (listed : endpoint ∈ (ofFiles registry files).1) :
    RouteKept registry files endpoint.key ↔ ¬ Displaced registry files endpoint.key := by
  constructor
  · rintro ⟨kept, keptListed, same, view, member, reports, routed⟩ ⟨first, found, _, apart⟩
    obtain ⟨holder, bound, _, holds⟩ := reports_firstBound keptListed
    rw [same, found] at bound
    cases bound
    exact apart view member routed (reports.symm.trans holds)
  · intro undisplaced
    obtain ⟨first, found, binds, reports⟩ := reports_firstBound listed
    by_cases routed : first.routesOf (UrlConf.routes files) = []
    · have shared : ∃ view ∈ (View.ofFiles registry files).1,
          RoutedTo (UrlConf.routes files) view endpoint.path ∧
            view.handlerClass = first.handlerClass := by
        by_contra none
        exact undisplaced ⟨first, found, routed, fun view member bound same =>
          none ⟨view, member, bound, same⟩⟩
      obtain ⟨view, member, bound, same⟩ := shared
      exact ⟨endpoint, listed, rfl, view, member, reports.trans same.symm, bound⟩
    · exact ⟨endpoint, listed, rfl, first, List.mem_of_find?_eq_some found, reports,
        routedTo_of_binds routed binds⟩

/-- A handler of a view that a pattern names always has an endpoint at the path
of the pattern. It reports a view that is routed there unless a view without a
route is the first to be bound under that path and method. -/
theorem pattern_kept_iff (member : view ∈ (View.ofFiles registry files).1)
    (plain : view.kind ≠ .viewSet) (handles : handler ∈ view.handlers)
    (listed : route ∈ UrlConf.routes files) (target : route.target = .view view.name mapping) :
    (∃ endpoint ∈ (ofFiles registry files).1, endpoint.key = (route.path, handler.method)) ∧
      (RouteKept registry files (route.path, handler.method) ↔
        ¬ Displaced registry files (route.path, handler.method)) := by
  obtain ⟨bound, binds, key⟩ := bound_of_pattern plain handles listed target
  obtain ⟨endpoint, kept, same⟩ := listed_of_bound member binds
  rw [← key, ← same]
  exact ⟨⟨endpoint, kept, rfl⟩, routeKept_iff kept⟩

/-- A view that no route names. -/
def itemFile : File :=
  .ofText "shop/item_views.py" "class ItemView(APIView):\n  def get(self): pass\n"

/-- A view that is routed to the path that the name of the item view stands for. -/
def shelfFile : File :=
  .ofText "shop/views.py" "class ShelfView(APIView):\n  def get(self): pass\n"

def shopUrls : File :=
  .ofText "shop/urls.py" "urlpatterns = [path('item/', ShelfView.as_view())]\n"

/-- A shop with the routed view first. -/
def shelfFirst : List File := [shelfFile, itemFile, shopUrls]

/-- A shop with the other view first. -/
def itemFirst : List File := [itemFile, shelfFile, shopUrls]

theorem shelf_route_kept : ∃ view ∈ (View.ofFiles (.ofExtraction {}) shelfFirst).1,
    view.kind ≠ .viewSet ∧ ∃ handler ∈ view.handlers, ∃ route ∈ UrlConf.routes shelfFirst,
      route.target = .view view.name [] ∧
        RouteKept (.ofExtraction {}) shelfFirst (route.path, handler.method) := by
  have checked : ∃ view ∈ (View.ofFiles (.ofExtraction {}) shelfFirst).1,
      view.kind ≠ .viewSet ∧ ∃ handler ∈ view.handlers, ∃ route ∈ UrlConf.routes shelfFirst,
        route.target = .view view.name [] ∧
          ¬ Displaced (.ofExtraction {}) shelfFirst (route.path, handler.method) := by
    decide +kernel
  obtain ⟨view, member, plain, handler, handles, route, listed, target, undisplaced⟩ := checked
  exact ⟨view, member, plain, handler, handles, route, listed, target,
    (pattern_kept_iff member plain handles listed target).2.mpr undisplaced⟩

/-- Where the view without a route stands first, the route of the other one is lost. -/
theorem shelf_route_displaced : ∃ view ∈ (View.ofFiles (.ofExtraction {}) itemFirst).1,
    view.kind ≠ .viewSet ∧ ∃ handler ∈ view.handlers, ∃ route ∈ UrlConf.routes itemFirst,
      route.target = .view view.name [] ∧
        ¬ RouteKept (.ofExtraction {}) itemFirst (route.path, handler.method) := by
  decide +kernel

end ApiScribe.Endpoint
