import ApiScribe.Proofs.Web.Paths

/-! Routers that are included more than once. A router counts under the path of its last
include only, so a viewset on it is reached under all of its paths just when the last path,
or another registration of the viewset, leads to the others as well. -/
namespace ApiScribe

namespace UrlConf
open Source (File)
open ApiScribe.Expr (read)
open Text (dropTrailing)

/-- The paths that a file includes a router under, in the order of its patterns. -/
def includes (file : File) (router : String) : List (List Char) :=
  (patterns file).filterMap fun (_, pattern) =>
    if includedRouter? pattern.view == some router then some pattern.path else none

/-- The path that a router counts under. Without an include, it is empty. -/
def lastInclude (file : File) (router : String) : List Char :=
  (includes file router).getLast?.getD []

/-- An expression of a file registers a viewset on a router. -/
def Registers (file : File) (router : String) (path : List Char) (viewset : String) : Prop :=
  ∃ line ∈ file.block.expressions,
    (read line.text).asCall?.bind registration? = some (router, path, viewset)

instance (file : File) (router : String) (path : List Char) (viewset : String) :
    Decidable (Registers file router path viewset) :=
  inferInstanceAs (Decidable (∃ line ∈ file.block.expressions,
    (read line.text).asCall?.bind registration? = some (router, path, viewset)))

/-- The routers of files lead to a viewset at a path. -/
def Reached (files : List File) (viewset : String) (path : List Char) : Prop :=
  ∃ route ∈ files.flatMap routerRoutes,
    route.target = .router viewset ∧ route.path = String.ofList path

instance (files : List File) (viewset : String) (path : List Char) :
    Decidable (Reached files viewset path) :=
  inferInstanceAs (Decidable (∃ route ∈ files.flatMap routerRoutes,
    route.target = .router viewset ∧ route.path = String.ofList path))

variable {files : List File} {file : File} {router viewset : String} {path base : List Char}

private theorem routerPath?_eq_some_iff :
    routerPath? file router = some base ↔
      router ∈ routers file ∧ lastInclude file router = base := by
  rw [routerPath?, Option.ite_none_right_eq_some, List.contains_iff_mem, Option.some_inj]
  rfl

/-- A router makes one route for each of its registrations. -/
theorem mem_routerRoutes {route : Route} : route ∈ routerRoutes file ↔
    ∃ line ∈ file.block.expressions, ∃ router ∈ routers file, ∃ path viewset,
      (read line.text).asCall?.bind registration? = some (router, path, viewset) ∧
        route = ⟨String.ofList (Route.join (lastInclude file router) path), .router viewset,
          file.path, line.number⟩ := by
  rw [routerRoutes, List.mem_filterMap]
  constructor
  · rintro ⟨line, listed, made⟩
    obtain ⟨⟨router, path, viewset⟩, registered, placed⟩ := Option.bind_eq_some_iff.mp made
    obtain ⟨base, counted, rfl⟩ := Option.map_eq_some_iff.mp placed
    obtain ⟨created, rfl⟩ := routerPath?_eq_some_iff.mp counted
    exact ⟨line, listed, router, created, path, viewset, registered, rfl⟩
  · rintro ⟨line, listed, router, created, path, viewset, registered, rfl⟩
    refine ⟨line, listed, ?_⟩
    have counted := routerPath?_eq_some_iff.mpr ⟨created, rfl⟩
    rw [registered, Option.bind_some]
    exact Option.map_eq_some_iff.mpr ⟨_, counted, rfl⟩

/-- A viewset is reached where the last include of a router and a registration on it lead. -/
theorem reached_iff : Reached files viewset path ↔
    ∃ file ∈ files, ∃ router ∈ routers file, ∃ below, Registers file router below viewset ∧
      Route.join (lastInclude file router) below = path := by
  constructor
  · rintro ⟨route, listed, target, same⟩
    obtain ⟨file, member, made⟩ := List.mem_flatMap.mp listed
    obtain ⟨line, inside, router, created, below, _, registered, rfl⟩ := mem_routerRoutes.mp made
    cases target
    exact ⟨file, member, router, created, below, ⟨line, inside, registered⟩,
      String.ofList_injective same⟩
  · rintro ⟨file, member, router, created, below, ⟨line, inside, registered⟩, rfl⟩
    have made := mem_routerRoutes.mpr
      ⟨line, inside, router, created, below, viewset, registered, rfl⟩
    exact ⟨_, List.mem_flatMap.mpr ⟨file, member, made⟩, rfl, rfl⟩

/-- Two paths lead to the same place below exactly if they differ in slashes at the end. -/
theorem join_left_inj (path : List Char) {other : List Char} :
    Route.join base path = Route.join other path ↔
      dropTrailing '/' base = dropTrailing '/' other := by
  rw [Route.join_eq, Route.join_eq, List.append_left_inj]

/-- The last include of a router always counts. Another one counts exactly if the last
include of some router and a registration of the same viewset on it lead to the same path.
A viewset that is registered once is therefore reached under every include exactly if they
are all alike but for slashes at the end. -/
theorem every_include_reached_iff (member : file ∈ files) (created : router ∈ routers file)
    (registered : Registers file router path viewset) :
    (∀ last ∈ (includes file router).getLast?, Reached files viewset (Route.join last path)) ∧
      ((∀ base ∈ includes file router, Reached files viewset (Route.join base path)) ↔
        ∀ base ∈ includes file router, ∃ found ∈ files, ∃ other ∈ routers found, ∃ below,
          Registers found other below viewset ∧
            Route.join (lastInclude found other) below = Route.join base path) ∧
      ((∀ found ∈ files, ∀ other ∈ routers found, ∀ below, Registers found other below viewset →
          found = file ∧ other = router ∧ below = path) →
        ((∀ base ∈ includes file router, Reached files viewset (Route.join base path)) ↔
          ∀ base ∈ includes file router, ∀ other ∈ includes file router,
            dropTrailing '/' base = dropTrailing '/' other)) := by
  refine ⟨fun last counts => ?_, forall₂_congr fun _ _ => reached_iff, fun once => ?_⟩
  · refine reached_iff.mpr ⟨file, member, router, created, path, registered, ?_⟩
    rw [lastInclude, Option.mem_def.mp counts, Option.getD_some]
  · have alike : ∀ base, Reached files viewset (Route.join base path) ↔
        dropTrailing '/' (lastInclude file router) = dropTrailing '/' base := by
      intro base
      rw [reached_iff, ← join_left_inj path]
      constructor
      · rintro ⟨found, among, other, assigned, below, registers, leads⟩
        obtain ⟨rfl, rfl, rfl⟩ := once found among other assigned below registers
        exact leads
      · exact fun leads => ⟨file, member, router, created, path, registered, leads⟩
    simp only [alike]
    constructor
    · exact fun last base included other otherIncluded =>
        (last base included).symm.trans (last other otherIncluded)
    · intro agree base included
      have counts := List.getLast?_eq_some_getLast (List.ne_nil_of_mem included)
      rw [lastInclude, counts, Option.getD_some]
      exact agree _ (List.mem_of_getLast? counts) base included

/-- A router with one viewset on it. -/
def tagRouter : String := "api = SimpleRouter()\napi.register('tags', TagSet)\n"

/-- URLs that include the router once. -/
def tagUrls : File :=
  .ofText "shop/urls.py" (tagRouter ++ "urlpatterns = [path('a/', include(api.urls))]\n")

private theorem tag_checked : "api" ∈ routers tagUrls ∧
    Registers tagUrls "api" "/tags/".toList "TagSet" ∧
      includes tagUrls "api" = ["/a/".toList] := by
  decide +kernel

theorem tags_reached : "api" ∈ routers tagUrls ∧
    Registers tagUrls "api" "/tags/".toList "TagSet" ∧ includes tagUrls "api" = ["/a/".toList] ∧
      Reached [tagUrls] "TagSet" "/a/tags/".toList := by
  obtain ⟨created, registered, included⟩ := tag_checked
  obtain ⟨last, _⟩ := every_include_reached_iff (List.mem_singleton_self _) created registered
  have reached := last "/a/".toList (by rw [included]; rfl)
  exact ⟨created, registered, included, reached⟩

/-- URLs that include the router twice. -/
def twoTagUrls : File :=
  .ofText "shop/urls.py" (tagRouter ++
    "urlpatterns = [path('a/', include(api.urls)), path('b/', include(api.urls))]\n")

/-- The viewset on the router is not reached under the first include. -/
theorem first_include_lost : "api" ∈ routers twoTagUrls ∧
    Registers twoTagUrls "api" "/tags/".toList "TagSet" ∧
      "/a/".toList ∈ includes twoTagUrls "api" ∧
        ¬ Reached [twoTagUrls] "TagSet" (Route.join "/a/".toList "/tags/".toList) := by
  decide +kernel

end UrlConf
end ApiScribe
