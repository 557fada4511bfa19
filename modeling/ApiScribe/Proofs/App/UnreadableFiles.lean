import ApiScribe.App.Analysis
import Mathlib.Data.List.Forall2

/-! Files that cannot be read. An analysis without them is the same, and it reports them in
the order in which it would have read them, before everything else. So files may be taken
away one by one or all at once, and only the reports about them go. -/
namespace ApiScribe

/-! The files of an application without some of them. -/

/-- Whether a path is among some paths, however it is spelled. -/
def isGone (gone : List String) (path : String) : Bool := gone.any (Path.same path)

/-- Takes files away from those with a role. They stay among the source files. -/
def AppFiles.without (files : AppFiles) (gone : List String) : AppFiles :=
  let kept (paths : List String) := paths.filter fun path => !isGone gone path
  { files with
    modelFiles := kept files.modelFiles
    serializerFiles := kept files.serializerFiles
    viewFiles := kept files.viewFiles
    urlFiles := kept files.urlFiles }

private theorem isGone_of_same (gone : List String) {path other : String}
    (same : Path.same path other = true) : isGone gone path = isGone gone other := by
  have names : Path.names path = Path.names other := by simpa [Path.same] using same
  exact List.any_congr rfl fun listed => by rw [Path.same, Path.same, names]

/-- A path that is kept is named by the same paths when others are taken away. -/
theorem any_same_kept {gone paths : List String} {path : String}
    (kept : isGone gone path = false) :
    (paths.filter fun other => !isGone gone other).any (Path.same path) =
      paths.any (Path.same path) := by
  rw [List.any_filter]
  refine List.any_congr rfl fun other => ?_
  cases same : Path.same path other with
  | false => rw [Bool.and_false]
  | true => rw [← isGone_of_same gone same, kept, Bool.not_false, Bool.true_and]

/-- The file that a warning is about. -/
def Warning.file : Warning → String
  | .unsupportedVerb file _ _ => file
  | .unreadable file _ => file

/-- Warnings about views: one names a verb that a view or a route of it asks for in vain. -/
def Warning.AboutView : Warning → Prop
  | .unsupportedVerb .. => True
  | .unreadable .. => False

/-! Warnings of an analysis. -/

section Views
open Source (File)

private theorem aboutView_verbWarnings (file owner : String) (verbs : List String) :
    ∀ warning ∈ View.verbWarnings file owner verbs, warning.AboutView :=
  List.forall_mem_map.mpr fun _ _ => trivial

private theorem aboutView_ofClass (declared : Declared) (root : String) :
    ∀ warning ∈ (View.ofClass declared root).2, warning.AboutView := by
  refine List.forall_mem_append.mpr ⟨List.forall_mem_map.mpr fun _ _ => trivial, ?_⟩
  intro warning member
  obtain ⟨⟨action, warnings⟩, listed, inside⟩ := List.mem_flatMap.mp member
  split at listed
  · obtain ⟨found, _, custom⟩ := List.mem_filterMap.mp listed
    obtain ⟨decorator, _, same⟩ := Option.map_eq_some_iff.mp custom
    cases same
    exact aboutView_verbWarnings _ _ _ warning inside
  · cases listed

private theorem aboutView_ofFile (registry : Registry) (file : File) :
    ∀ warning ∈ (View.ofFile registry file).2, warning.AboutView := by
  intro warning member
  obtain ⟨⟨view, warnings⟩, listed, inside⟩ := List.mem_flatMap.mp member
  rcases List.mem_append.mp listed with classes | functions
  · obtain ⟨declared, _, found⟩ := List.mem_filterMap.mp classes
    obtain ⟨root, _, same⟩ := Option.map_eq_some_iff.mp found
    exact aboutView_ofClass declared root warning (same ▸ inside)
  · obtain ⟨function, _, found⟩ := List.mem_filterMap.mp functions
    obtain ⟨decorator, _, same⟩ := Option.map_eq_some_iff.mp found
    cases same
    exact aboutView_verbWarnings _ _ _ warning inside

/-- All warnings but those about files that cannot be read are about views. -/
theorem aboutView_ofFiles (registry : Registry) (files : List File) :
    ∀ warning ∈ (Endpoint.ofFiles registry files).2, warning.AboutView := by
  refine List.forall_mem_append.mpr ⟨fun warning member => ?_, fun warning member => ?_⟩
  · obtain ⟨found, listed, inside⟩ := List.mem_flatMap.mp member
    obtain ⟨file, _, rfl⟩ := List.mem_map.mp listed
    exact aboutView_ofFile registry file warning inside
  · obtain ⟨view, _, inside⟩ := List.mem_flatMap.mp member
    obtain ⟨route, _, named⟩ := List.mem_flatMap.mp inside
    rw [View.routeWarnings] at named
    split at named
    · cases named
    · split at named
      · exact aboutView_verbWarnings _ _ _ warning named
      · cases named

end Views

namespace App
open Source (File)

variable {extra : Config.Extraction} {tree : FileTree} {files : AppFiles} {gone paths : List String}
  {path : String}

private theorem distinctPaths_kept (gone seen paths : List String) :
    distinctPaths (seen.filter fun path => !isGone gone path)
        (paths.filter fun path => !isGone gone path) =
      (distinctPaths seen paths).filter fun path => !isGone gone path := by
  induction paths generalizing seen with
  | nil => rfl
  | cons path rest ih =>
    cases taken : isGone gone path with
    | false =>
      rw [List.filter_cons_of_pos (by simp [taken]), distinctPaths, any_same_kept taken,
        distinctPaths]
      split
      · exact ih seen
      · have entered := ih (path :: seen)
        rw [List.filter_cons_of_pos (by simp [taken])] at entered
        rw [List.filter_cons_of_pos (by simp [taken]), entered]
    | true =>
      rw [List.filter_cons_of_neg (by simp [taken]), distinctPaths]
      split
      · exact ih seen
      · have entered := ih (path :: seen)
        rw [List.filter_cons_of_neg (by simp [taken])] at entered
        rw [List.filter_cons_of_neg (by simp [taken]), entered]

/-- What is left with a role, in the same order. -/
theorem roleFiles_without (files : AppFiles) (gone : List String) :
    roleFiles (files.without gone) = (roleFiles files).filter fun path => !isGone gone path := by
  have kept := distinctPaths_kept gone []
    (files.modelFiles ++ files.serializerFiles ++ files.viewFiles ++ files.urlFiles)
  simp only [List.filter_append] at kept
  exact kept

/-! Reports about files that cannot be read. -/

/-- What is reported about a file, if it cannot be read. -/
def refusal? (tree : FileTree) (path : String) : Option Warning :=
  match tree.read path with
  | .ok _ => none
  | .error cause => some (.unreadable path cause)

/-- The reports about those of some files that cannot be read, in their order. -/
def refusals (tree : FileTree) (paths : List String) : List Warning :=
  paths.filterMap (refusal? tree)

def refused (tree : FileTree) (path : String) : Bool := (refusal? tree path).isSome

private theorem refused_iff :
    refused tree path = true ↔ ∃ cause, tree.read path = .error cause := by
  rw [refused, refusal?]
  split <;> simp_all

private theorem unreadable_files (tree : FileTree) (paths : List String) :
    unreadable (paths.map (readFile tree)) = refusals tree paths := by
  rw [unreadable, List.filterMap_map, refusals]
  refine List.filterMap_congr fun path _ => ?_
  rw [Function.comp_apply, readFile, refusal?]
  cases tree.read path <;> rfl

private theorem refusals_append (tree : FileTree) (first second : List String) :
    refusals tree (first ++ second) = refusals tree first ++ refusals tree second :=
  List.filterMap_append

/-- A report names its file, so reports tell which files could not be read. -/
theorem refusals_eq_iff {others : List String} : refusals tree paths = refusals tree others ↔
    paths.filter (refused tree) = others.filter (refused tree) := by
  have named (paths : List String) : (refusals tree paths).map Warning.file =
      paths.filter (refused tree) := by
    have each (path : String) : (refusal? tree path).map Warning.file =
        Option.guard (refused tree) path := by
      rw [Option.guard, refused, refusal?]
      cases tree.read path <;> rfl
    rw [refusals, List.map_filterMap, funext each, List.filterMap_eq_filter]
  have reported (paths : List String) : refusals tree (paths.filter (refused tree)) =
      refusals tree paths := by
    have each (path : String) : (if refused tree path = true then refusal? tree path else none) =
        refusal? tree path := by
      rw [refused]
      cases refusal? tree path <;> rfl
    rw [refusals, List.filterMap_filter, funext each, refusals]
  constructor
  · intro same
    rw [← named, same, named]
  · intro same
    rw [← reported, same, reported]

/-- One report for each of some files, in their order. -/
def Reported (tree : FileTree) (paths : List String) (warnings : List Warning) : Prop :=
  List.Forall₂ (fun path warning =>
    ∃ cause, tree.read path = .error cause ∧ warning = .unreadable path cause) paths warnings

private theorem reported_refusals
    (refuses : ∀ path ∈ paths, ∃ cause, tree.read path = .error cause) :
    Reported tree paths (refusals tree paths) := by
  induction paths with
  | nil => exact .nil
  | cons path rest ih =>
    obtain ⟨cause, failed⟩ := refuses path List.mem_cons_self
    have here : refusal? tree path = some (.unreadable path cause) := by rw [refusal?, failed]
    rw [refusals, List.filterMap_cons_some here]
    exact .cons ⟨cause, failed, rfl⟩
      (ih fun other later => refuses other (List.mem_cons_of_mem _ later))

/-! The analysis of what is left. -/

private theorem readable_kept (refuses : ∀ path ∈ paths, isGone gone path = true →
      ∃ cause, tree.read path = .error cause) :
    readable ((paths.filter fun path => !isGone gone path).map (readFile tree)) =
      readable (paths.map (readFile tree)) := by
  induction paths with
  | nil => rfl
  | cons path rest ih =>
    have below := ih fun other later => refuses other (List.mem_cons_of_mem _ later)
    have step (read : Except Warning File) (others : List (Except Warning File)) :
        readable (read :: others) = readable [read] ++ readable others := by
      cases read <;> rfl
    cases taken : isGone gone path with
    | false =>
      rw [List.filter_cons_of_pos (by simp [taken]), List.map_cons, List.map_cons, step, below,
        ← step]
    | true =>
      obtain ⟨cause, failed⟩ := refuses path List.mem_cons_self taken
      have unread : readFile tree path = .error (.unreadable path cause) := by
        rw [readFile, failed]
      rw [List.filter_cons_of_neg (by simp [taken]), List.map_cons, unread, step, below]
      rfl

private theorem path_of_readable {file : File}
    (listed : file ∈ readable (paths.map (readFile tree))) :
    file.path ∈ paths := by
  rw [readable, List.filterMap_map] at listed
  obtain ⟨path, member, read⟩ := List.mem_filterMap.mp listed
  rw [Function.comp_apply, readFile] at read
  cases held : tree.read path with
  | error cause => simp [held] at read
  | ok text =>
    simp only [held, Option.some.injEq] at read
    rw [← read]
    exact member

/-- Among the files that are kept the same ones have a part in the analysis. -/
theorem ofFiles_without {parsed : List File}
    (kept : ∀ file ∈ parsed, isGone gone file.path = false) :
    ofFiles extra (files.without gone) parsed = ofFiles extra files parsed := by
  have chosen (paths : List String) :
      (parsed.filter fun file => (paths.filter fun path => !isGone gone path).any
        (Path.same file.path)) = parsed.filter fun file => paths.any (Path.same file.path) :=
    List.filter_congr fun file member => any_same_kept (kept file member)
  have declaring : classFiles (files.without gone) parsed = classFiles files parsed := by
    have same := chosen (files.modelFiles ++ files.serializerFiles ++ files.viewFiles)
    simp only [List.filter_append] at same
    exact same
  have routing : routeFiles (files.without gone) parsed = routeFiles files parsed := by
    have same := chosen (files.viewFiles ++ files.urlFiles)
    simp only [List.filter_append] at same
    exact same
  rw [ofFiles, declaring, routing, ofFiles]
  rfl

/-- No file that is left and cannot be read stands before one that is taken away. -/
def GoneFirst (tree : FileTree) (files : AppFiles) (gone : List String) : Prop :=
  ((roleFiles files).filter (refused tree)).Pairwise fun earlier later =>
    isGone gone later = true → isGone gone earlier = true

/-- Elements of one kind come before the others as they are when each of them follows
only such. -/
theorem filter_append_filter_eq_iff {α : Type} (kind : α → Bool) (values : List α) :
    values = values.filter kind ++ values.filter (fun value => !kind value) ↔
      values.Pairwise fun earlier later => kind later = true → kind earlier = true := by
  induction values with
  | nil => simp
  | cons value rest ih =>
    rw [List.pairwise_cons, ← ih]
    cases here : kind value with
    | true => simp [here]
    | false =>
      rw [List.filter_cons_of_neg (by simp [here]), List.filter_cons_of_pos (by simp [here])]
      constructor
      · intro sorted
        -- Anything of the kind would stand in the place of the first value.
        cases among : rest.filter kind with
        | nil =>
          rw [among, List.nil_append, List.cons.injEq] at sorted
          exact ⟨fun later member of => absurd of (List.filter_eq_nil_iff.mp among later member),
            by rw [List.nil_append]; exact sorted.2⟩
        | cons first others =>
          rw [among, List.cons_append, List.cons.injEq] at sorted
          have member : first ∈ rest.filter kind := among ▸ List.mem_cons_self
          rw [← sorted.1, List.mem_filter, here] at member
          exact absurd member.2 Bool.false_ne_true
      · rintro ⟨none, sorted⟩
        have among : rest.filter kind = [] :=
          List.filter_eq_nil_iff.mpr fun later member of => Bool.false_ne_true (none later member of)
        rw [among, List.nil_append] at sorted ⊢
        rw [← sorted]

/-- The files with a role that are taken away. -/
def goneFiles (files : AppFiles) (gone : List String) : List String :=
  (roleFiles files).filter (isGone gone)

private theorem goneFirst_iff : GoneFirst tree files gone ↔
    refusals tree (roleFiles files) = refusals tree (goneFiles files gone) ++
      refusals tree (roleFiles (files.without gone)) := by
  rw [← refusals_append, refusals_eq_iff, List.filter_append, goneFiles, roleFiles_without,
    List.filter_filter, List.filter_filter, GoneFirst, ← filter_append_filter_eq_iff,
    List.filter_filter, List.filter_filter]
  simp only [Bool.and_comm]

private theorem analyze_eq (extra : Config.Extraction) (tree : FileTree) (files : AppFiles) :
    analyze extra tree files =
      let found := ofFiles extra files (readable ((roleFiles files).map (readFile tree)))
      (found.1, refusals tree (roleFiles files) ++ found.2) := by
  rw [analyze, unreadable_files]

/-- What becomes of an analysis when files are taken away that cannot be read. -/
structure PassesOver (extra : Config.Extraction) (tree : FileTree) (files : AppFiles)
    (gone : List String) : Prop where
  /-- The application is the same. -/
  app : (analyze extra tree files).1 = (analyze extra tree (files.without gone)).1
  /-- Of the reports about files those about the ones taken away go; the warnings about views
  follow in either case. -/
  warnings : ∃ later, (∀ warning ∈ later, warning.AboutView) ∧
    later = (ofFiles extra files (readable ((roleFiles files).map (readFile tree)))).2 ∧
    (analyze extra tree files).2 = refusals tree (roleFiles files) ++ later ∧
    (analyze extra tree (files.without gone)).2 =
      refusals tree ((roleFiles files).filter fun path => !isGone gone path) ++ later
  /-- There is one report for each of them. -/
  reported : Reported tree (goneFiles files gone) (refusals tree (goneFiles files gone))
  /-- Their reports come first exactly when no other file that cannot be read does. -/
  first : (analyze extra tree files).2 = refusals tree (goneFiles files gone) ++
      (analyze extra tree (files.without gone)).2 ↔ GoneFirst tree files gone
  /-- So it is when all files that cannot be read are taken away. -/
  complete : (∀ path ∈ roleFiles files, refused tree path = true → isGone gone path = true) →
    GoneFirst tree files gone

/-- Files that cannot be read change nothing but the reports about them. -/
theorem unreadable_files_passed_over (extra : Config.Extraction)
    (refuses : ∀ path ∈ goneFiles files gone, ∃ cause, tree.read path = .error cause) :
    PassesOver extra tree files gone := by
  have left := roleFiles_without files gone
  have parsed : readable ((roleFiles (files.without gone)).map (readFile tree)) =
      readable ((roleFiles files).map (readFile tree)) := by
    rw [left]
    exact readable_kept fun path listed taken => refuses path (List.mem_filter.mpr ⟨listed, taken⟩)
  have kept : ∀ file ∈ readable ((roleFiles files).map (readFile tree)),
      isGone gone file.path = false := by
    intro file member
    rw [← parsed] at member
    have listed := path_of_readable member
    rw [left, List.mem_filter] at listed
    simpa using listed.2
  have same : ofFiles extra (files.without gone)
      (readable ((roleFiles (files.without gone)).map (readFile tree))) =
        ofFiles extra files (readable ((roleFiles files).map (readFile tree))) := by
    rw [parsed, ofFiles_without kept]
  have reduced := analyze_eq extra tree (files.without gone)
  rw [same] at reduced
  have whole := analyze_eq extra tree files
  refine ⟨by rw [whole, reduced],
    ⟨(ofFiles extra files (readable ((roleFiles files).map (readFile tree)))).2,
      aboutView_ofFiles _ _, rfl, by rw [whole], by rw [reduced, left]⟩,
    reported_refusals refuses, ?_, fun complete => ?_⟩
  · rw [whole, reduced, ← List.append_assoc, List.append_left_inj]
    exact goneFirst_iff.symm
  · refine List.Pairwise.imp_of_mem (fun earlier _ _ => ?_)
      (List.pairwise_of_forall fun _ _ => trivial)
    obtain ⟨listed, unread⟩ := List.mem_filter.mp earlier
    exact fun _ => complete _ listed unread

/-- A shop with a file of models and two files that are no text. -/
def brokenShop : FileTree :=
  ⟨[(["project"], .directory), (["project", "shop"], .directory),
    (["project", "shop", "__init__.py"], .file (.text "")),
    (["project", "shop", "models.py"], .file (.text "class Item(Model):\n  title = CharField()\n")),
    (["project", "shop", "old_models.py"], .file (.binary [255])),
    (["project", "shop", "views.py"], .file (.binary [255]))]⟩

def brokenFiles : AppFiles :=
  .ofPaths "shop" "project/shop" ["project/shop/__init__.py", "project/shop/models.py",
    "project/shop/old_models.py", "project/shop/views.py"]

/-- Both files can be taken away, and then their reports come first. -/
theorem broken_files_reported :
    let gone := ["project/shop/views.py", "project/shop/old_models.py"]
    (∀ path ∈ goneFiles brokenFiles gone, ∃ cause, brokenShop.read path = .error cause) ∧
      PassesOver {} brokenShop brokenFiles gone ∧
      (analyze {} brokenShop brokenFiles).2 = refusals brokenShop (goneFiles brokenFiles gone) ++
        (analyze {} brokenShop (brokenFiles.without gone)).2 := by
  intro gone
  have refuses : ∀ path ∈ goneFiles brokenFiles gone, ∃ cause,
      brokenShop.read path = .error cause := by
    intro path member
    have each : ∀ path ∈ goneFiles brokenFiles gone, refused brokenShop path = true := by
      decide +kernel
    exact refused_iff.mp (each path member)
  have passed : PassesOver {} brokenShop brokenFiles gone := unreadable_files_passed_over {} refuses
  exact ⟨refuses, passed, passed.first.mpr (passed.complete (by decide +kernel))⟩

/-- Where only the views are taken away, the report about the models comes first. -/
theorem broken_views_not_reported_first :
    let gone := ["project/shop/views.py"]
    goneFiles brokenFiles gone = gone ∧
      brokenShop.read "project/shop/views.py" = .error .notText ∧
      (analyze {} brokenShop brokenFiles).2 ≠ refusals brokenShop gone ++
        (analyze {} brokenShop (brokenFiles.without gone)).2 := by
  decide +kernel

end App
end ApiScribe
