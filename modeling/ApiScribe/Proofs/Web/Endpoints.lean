import ApiScribe.Proofs.Web.Paths
import Mathlib.Data.List.Nodup

/-! The list of endpoints holds one endpoint for each path and method that some
view is bound under: the first binding of the first view that has one. Nothing
else is in the list, and no view loses a path without another one answering. -/
namespace ApiScribe
open Text
open Source (File)

/-- The views of files are made from classes that have the role and from functions. -/
theorem View.mem_ofFiles {registry : Registry} {files : List File} {view : View} :
    view ∈ (ofFiles registry files).1 ↔
      (∃ declared ∈ Declared.ofFiles files, ∃ root,
        registry.rootBase? declared .view = some root ∧ (ofClass declared root).1 = view) ∨
      ∃ file ∈ files, ∃ found ∈ file.block.functions, ∃ made,
        ofFunction? file found = some made ∧ made.1 = view := by
  have inFile (file : File) : view ∈ (ofFile registry file).1 ↔
      (∃ declared ∈ Declared.ofFiles [file], ∃ root,
        registry.rootBase? declared .view = some root ∧ (ofClass declared root).1 = view) ∨
      ∃ found ∈ file.block.functions, ∃ made,
        ofFunction? file found = some made ∧ made.1 = view := by
    simp only [ofFile, List.mem_mergeSort, List.map_append, List.mem_append, List.mem_map,
      List.mem_filterMap, Option.map_eq_some_iff]
    constructor
    · rintro (⟨_, ⟨declared, listed, root, leads, rfl⟩, same⟩ | ⟨made, ⟨found, listed, read⟩, same⟩)
      · exact .inl ⟨declared, listed, root, leads, same⟩
      · exact .inr ⟨found, listed, made, read, same⟩
    · rintro (⟨declared, listed, root, leads, same⟩ | ⟨found, listed, made, read, same⟩)
      · exact .inl ⟨_, ⟨declared, listed, root, leads, rfl⟩, same⟩
      · exact .inr ⟨made, ⟨found, listed, read⟩, same⟩
  have declaredIn (declared : Declared) :
      declared ∈ Declared.ofFiles files ↔ ∃ file ∈ files, declared ∈ Declared.ofFiles [file] := by
    simp [Declared.ofFiles]
  simp only [ofFiles, List.flatMap_map, List.mem_flatMap, inFile, declaredIn]
  constructor
  · rintro ⟨file, member, ⟨declared, listed, rest⟩ | rest⟩
    · exact .inl ⟨declared, ⟨file, member, listed⟩, rest⟩
    · exact .inr ⟨file, member, rest⟩
  · rintro (⟨declared, ⟨file, member, listed⟩, rest⟩ | ⟨file, member, rest⟩)
    · exact ⟨file, member, .inl ⟨declared, listed, rest⟩⟩
    · exact ⟨file, member, .inr rest⟩

namespace Endpoint
variable {endpoint : Endpoint} {endpoints : List Endpoint} {views : List View}
  {routes : List Route}

/-- Of the endpoints of a key the first one is kept, unless the key was seen. -/
theorem mem_firstOfEach {seen : List (String × HttpMethod)} :
    endpoint ∈ firstOfEach seen endpoints ↔
      endpoint.key ∉ seen ∧
        endpoints.find? (fun found => found.key == endpoint.key) = some endpoint := by
  induction endpoints generalizing seen with
  | nil => simp [firstOfEach]
  | cons first rest ih =>
    -- The key of the first endpoint is seen from there on, whether it was before or not.
    by_cases same : first.key = endpoint.key
    · rw [List.find?_cons_of_pos (by simpa using same), Option.some.injEq, firstOfEach]
      by_cases known : first.key ∈ seen
      · rw [if_pos (by simpa using known), ih]
        exact ⟨fun kept => absurd (same ▸ known) kept.1, fun kept => absurd (same ▸ known) kept.1⟩
      · rw [if_neg (by simpa using known), List.mem_cons, ih]
        constructor
        · rintro (rfl | ⟨fresh, _⟩)
          · exact ⟨known, rfl⟩
          · exact absurd (same ▸ List.mem_cons_self) fresh
        · exact fun kept => .inl kept.2.symm
    · rw [List.find?_cons_of_neg (by simpa using same), firstOfEach]
      by_cases known : first.key ∈ seen
      · rw [if_pos (by simpa using known), ih]
      · rw [if_neg (by simpa using known), List.mem_cons, ih, List.mem_cons]
        have other : endpoint ≠ first := fun equal => same (equal ▸ rfl)
        simp [other, Ne.symm same]

theorem firstOfEach_distinct (seen : List (String × HttpMethod)) (endpoints : List Endpoint) :
    ((firstOfEach seen endpoints).map key).Nodup := by
  induction endpoints generalizing seen with
  | nil => exact List.nodup_nil
  | cons first rest ih =>
    rw [firstOfEach]
    split
    · exact ih seen
    · rw [List.map_cons, List.nodup_cons]
      refine ⟨fun repeated => ?_, ih _⟩
      obtain ⟨later, listed, same⟩ := List.mem_map.mp repeated
      exact (mem_firstOfEach.mp listed).1 (same ▸ List.mem_cons_self)

/-- The first view that is bound under a key, by a route or by its name. -/
def firstBound? (views : List View) (routes : List Route) (key : String × HttpMethod) :
    Option View :=
  views.find? fun view => (view.bindings routes).any fun bound => bound.key == key

private theorem find?_flatMap_eq_some_iff {items : List α} {parts : α → List β}
    {test : β → Bool} {found : β} :
    (items.flatMap parts).find? test = some found ↔
      ∃ item, items.find? (fun item => (parts item).any test) = some item ∧
        (parts item).find? test = some found := by
  induction items with
  | nil => simp
  | cons first rest ih =>
    rw [List.flatMap_cons, List.find?_append]
    cases here : (parts first).find? test with
    | some part =>
      have bound : (parts first).any test = true :=
        List.any_eq_true.mpr ⟨part, List.mem_of_find?_eq_some here, List.find?_some here⟩
      simp [bound, here]
    | none =>
      have unbound : (parts first).any test = false := by
        simpa [List.find?_eq_none] using here
      rw [Option.none_or, ih]
      simp only [List.find?_cons, unbound]

/-- An endpoint is listed when it is the first binding under its key of the
first view that has one. -/
theorem mem_ofViews :
    endpoint ∈ ofViews views routes ↔
      ∃ view, firstBound? views routes endpoint.key = some view ∧
        (view.bindings routes).find? (fun bound => bound.key == endpoint.key) = some endpoint := by
  rw [ofViews, mem_firstOfEach, find?_flatMap_eq_some_iff]
  exact and_iff_right List.not_mem_nil

theorem listed_of_bound {view : View} (member : view ∈ views) {bound : Endpoint}
    (binds : bound ∈ view.bindings routes) :
    ∃ endpoint ∈ ofViews views routes, endpoint.key = bound.key := by
  have some : (views.flatMap (View.bindings routes)).find?
      (fun found => found.key == bound.key) ≠ none := by
    intro none
    have absent := List.find?_eq_none.mp none bound (List.mem_flatMap.mpr ⟨view, member, binds⟩)
    exact absent (beq_self_eq_true bound.key)
  obtain ⟨endpoint, first⟩ := Option.ne_none_iff_exists'.mp some
  have same : endpoint.key = bound.key := by simpa using List.find?_some first
  refine ⟨endpoint, mem_firstOfEach.mpr ⟨List.not_mem_nil, ?_⟩, same⟩
  rw [same]
  exact first

/-- What the endpoints of views under routes are: one for each path and method
that some view is bound under, and each of them a binding of some view. -/
structure Listing (views : List View) (routes : List Route) (endpoints : List Endpoint) :
    Prop where
  distinct : (endpoints.map key).Nodup
  slashed : ∀ endpoint ∈ endpoints,
    startsWith endpoint.path "/" = true ∧ endsWith endpoint.path "/" = true
  handled : ∀ endpoint ∈ endpoints, ∃ view ∈ views,
    endpoint ∈ view.bindings routes ∧ endpoint.handlerClass = view.handlerClass
  complete : ∀ view ∈ views, ∀ bound ∈ view.bindings routes,
    ∃ endpoint ∈ endpoints, endpoint.key = bound.key

private theorem slashes_of_slashed {path : String} (slashed : Route.Slashed path.toList) :
    startsWith path "/" = true ∧ endsWith path "/" = true := by
  obtain ⟨rest, opens⟩ := List.head?_eq_some_iff.mp slashed.1
  obtain ⟨front, closes⟩ := List.getLast?_eq_some_iff.mp slashed.2
  constructor
  · rw [startsWith, List.isPrefixOf_iff_prefix, opens]
    exact ⟨rest, rfl⟩
  · rw [endsWith, List.isSuffixOf_iff_suffix, closes]
    exact ⟨front, rfl⟩

/-- The endpoints of files, whatever has been learned about their classes. -/
theorem ofFiles_listing (registry : Registry) (files : List File) :
    Listing (View.ofFiles registry files).1 (UrlConf.routes files)
      (ofFiles registry files).1 where
  distinct := firstOfEach_distinct [] _
  slashed endpoint listed := by
    obtain ⟨view, _, first⟩ := mem_ofViews.mp listed
    exact slashes_of_slashed (View.bindings_bind (fun _ => UrlConf.slashed_routes)
      (List.mem_of_find?_eq_some first)).2
  handled endpoint listed := by
    obtain ⟨view, bound, first⟩ := mem_ofViews.mp listed
    have binds := List.mem_of_find?_eq_some first
    exact ⟨view, List.mem_of_find?_eq_some bound, binds,
      (View.bindings_bind (fun _ => UrlConf.slashed_routes) binds).1⟩
  complete _ member _ binds := listed_of_bound member binds

end Endpoint
end ApiScribe
