import ApiScribe.Proofs.Inventory.Sources
import Mathlib.Data.List.TakeWhile

/-! A survey of a project is exact. It succeeds when it has no errors and that is
when it has applications; these are the packages directly below the root, in the
order of their names. Each one lists every source below it once, and sorts the
sources by role without losing, adding or doubling one. -/
namespace ApiScribe

/-! Roles. -/

/-- The files of an application that have a role. -/
def AppFiles.ofRole (files : AppFiles) : FileRole → List String
  | .models => files.modelFiles
  | .serializers => files.serializerFiles
  | .views => files.viewFiles
  | .urls => files.urlFiles

/-- The files with a role are those of the sources that have it, and no file has
two roles. -/
structure AppFiles.Sorted (files : AppFiles) : Prop where
  sublist : ∀ role, (files.ofRole role).Sublist files.pythonFiles
  classified : ∀ role path,
    path ∈ files.ofRole role ↔ path ∈ files.pythonFiles ∧ FileRole.ofPath? path = some role
  apart : ∀ role other, role ≠ other → (files.ofRole role).Disjoint (files.ofRole other)

private theorem AppFiles.ofRole_ofPaths (name rootPath : String) (paths : List String)
    (role : FileRole) :
    (AppFiles.ofPaths name rootPath paths).ofRole role =
      paths.filter fun path => FileRole.ofPath? path == some role := by
  cases role <;> rfl

private theorem AppFiles.sorted_ofPaths (name rootPath : String) (paths : List String) :
    (AppFiles.ofPaths name rootPath paths).Sorted where
  sublist role := by
    rw [ofRole_ofPaths]
    exact List.filter_sublist
  classified role path := by
    rw [ofRole_ofPaths, List.mem_filter, beq_iff_eq]
    rfl
  apart role other different path one two := by
    rw [ofRole_ofPaths, List.mem_filter, beq_iff_eq] at one two
    exact different (Option.some.inj (one.2.symm.trans two.2))

namespace Path

/-- The extension of a name is what follows its last point, which does not open
the name. -/
theorem extension_iff {name extension : String} : (cutName name).2 = some extension ↔
    '.' ∉ extension.toList ∧ ∃ stem, stem ≠ [] ∧ name.toList = stem ++ '.' :: extension.toList := by
  rw [cutName]
  generalize backward : name.toList.reverse = reversed
  have whole := List.takeWhile_append_dropWhile (p := (· ≠ '.')) (l := reversed)
  have behind : reversed.drop (reversed.takeWhile (· ≠ '.')).length =
      reversed.dropWhile (· ≠ '.') := by
    calc reversed.drop (reversed.takeWhile (· ≠ '.')).length
        = (reversed.takeWhile (· ≠ '.') ++ reversed.dropWhile (· ≠ '.')).drop
            (reversed.takeWhile (· ≠ '.')).length := by rw [whole]
      _ = reversed.dropWhile (· ≠ '.') := List.drop_left
  simp only [behind]
  constructor
  · intro ends
    split at ends
    · next point second others cut =>
      cases ends
      have stops : point = '.' := by
        have head := List.head?_dropWhile_not (· ≠ '.') reversed
        rw [cut] at head
        simpa using head
      refine ⟨fun inside => ?_, (second :: others).reverse, by simp, ?_⟩
      · rw [String.toList_ofList, List.mem_reverse] at inside
        have passed := List.mem_takeWhile_imp inside
        simp at passed
      · rw [String.toList_ofList, ← List.reverse_inj, backward, List.reverse_append,
          List.reverse_cons, List.reverse_reverse, List.reverse_reverse, List.append_assoc]
        rw [cut, stops] at whole
        exact whole.symm
    · cases ends
  · rintro ⟨free, stem, some, spelled⟩
    obtain ⟨c, others, opens⟩ := List.exists_cons_of_ne_nil (List.reverse_ne_nil_iff.mpr some)
    have passed : ∀ d ∈ extension.toList.reverse, decide (d ≠ '.') = true := by
      intro d member
      have other : d ≠ '.' := fun same => free (List.mem_reverse.mp (same ▸ member))
      simpa using other
    have split : reversed = extension.toList.reverse ++ '.' :: c :: others := by
      rw [← backward, spelled, List.reverse_append, List.reverse_cons, opens, List.append_assoc]
      rfl
    rw [split, List.dropWhile_append_of_pos passed, List.takeWhile_append_of_pos passed,
      List.dropWhile_cons_of_neg (by simp), List.takeWhile_cons_of_neg (by simp), List.append_nil,
      List.reverse_reverse, String.ofList_toList]

end Path

namespace Inventory
open FileTree Text

variable {tree : FileTree} {place : Place} {root path name : String} {names : List String}

/-- A name that is neither hidden nor that of a cache. -/
structure Shown (name : String) : Prop where
  visible : name.toList.head? ≠ some '.'
  kept : name ≠ "__pycache__"

private theorem isIgnored_eq_false_iff : isIgnored name = false ↔ Shown name := by
  have hidden : startsWith name "." = false ↔ name.toList.head? ≠ some '.' := by
    rw [startsWith]
    cases name.toList with
    | nil => simp
    | cons c rest =>
      have first : ".".toList.isPrefixOf (c :: rest) = ('.' == c) := by
        exact Bool.and_true _
      rw [first, beq_eq_false_iff_ne, List.head?_cons, ne_eq, ne_eq, Option.some.injEq, eq_comm]
  rw [isIgnored, Bool.or_eq_false_iff, hidden, beq_eq_false_iff_ne]
  exact ⟨fun ⟨visible, kept⟩ => ⟨visible, kept⟩, fun shown => ⟨shown.visible, shown.kept⟩⟩

/-- A directory directly below a place that is marked as a package. -/
structure PackageAt (tree : FileTree) (place : Place) (name : String) : Prop where
  shown : Shown name
  directory : tree.node? (place ++ [name]) = some .directory
  marked : ∃ content, tree.node? (place ++ [name, packageMarker]) = some (.file content)

/-- A source file below a place, with nothing hidden on the way to it. -/
structure SourceAt (tree : FileTree) (place : Place) (names : List String) : Prop where
  held : ∃ content, tree.node? (place ++ names) = some (.file content)
  shown : ∀ name ∈ names, Shown name
  python : ∃ stem, names.getLast? = some (stem ++ ".py")

private theorem mem_packages (proper : Proper tree) :
    name ∈ packages tree place ↔ PackageAt tree place name := by
  rw [packages, List.mem_map]
  constructor
  · rintro ⟨names, listed, rfl⟩
    obtain ⟨_, node, held, kind⟩ := (mem_namesBelow proper).mp listed
    obtain ⟨name, rfl, seen, marked⟩ := (mem_packageNames proper).mp listed
    cases node with
    | directory => exact ⟨isIgnored_eq_false_iff.mp seen, held, marked⟩
    | file content => cases kind
  · intro package
    refine ⟨[name], (mem_packageNames proper).mpr ⟨name, rfl, ?_, package.marked⟩, rfl⟩
    exact isIgnored_eq_false_iff.mpr package.shown

/-- Packages are listed in the order of their names, and none of them twice. -/
theorem packages_increasing (proper : Proper tree) (place : Place) :
    (packages tree place).Pairwise (· < ·) := by
  have once : (tree.namesBelow place (isPackage tree place)).Nodup := namesBelow_nodup proper
  have listed := (namesBelow_sorted tree place (isPackage tree place)).and once
  rw [packages, List.pairwise_map]
  refine listed.imp_of_mem fun {left right} one two both => ?_
  obtain ⟨ordered, apart⟩ := both
  obtain ⟨first, rfl, _⟩ := (mem_packageNames proper).mp one
  obtain ⟨second, rfl, _⟩ := (mem_packageNames proper).mp two
  rcases placeLe_cons.mp ordered with less | ⟨rfl, _⟩
  · exact less
  · exact absurd rfl apart

/-- A name that is shown and has the extension of sources ends with it. -/
theorem python_iff (shown : Shown name) :
    (Path.cutName name).2 = some "py" ↔ ∃ stem, name = stem ++ ".py" := by
  rw [Path.extension_iff]
  constructor
  · rintro ⟨_, stem, _, spelled⟩
    refine ⟨String.ofList stem, String.toList_inj.mp ?_⟩
    rw [String.toList_append, String.toList_ofList]
    exact spelled
  · rintro ⟨stem, rfl⟩
    refine ⟨by decide, stem.toList, ?_, by rw [String.toList_append]; rfl⟩
    intro none
    have first := shown.visible
    rw [String.toList_append, none] at first
    exact first rfl

private theorem mem_sources (proper : Proper tree) :
    names ∈ tree.namesBelow place (isSource path) ↔ SourceAt tree place names := by
  rw [mem_sourceNames proper]
  have last {node : Node} (held : tree.node? (place ++ names) = some node) (some : names ≠ []) :
      Path.extension? (names.foldl Path.join path) =
        names.getLast?.bind fun name => (Path.cutName name).2 :=
    extension?_joined path some fun name member =>
      proper.plain_of_node? held name (List.mem_append_right _ member)
  constructor
  · rintro ⟨some, ⟨content, held⟩, seen, extension⟩
    have shown : ∀ name ∈ names, Shown name := fun name member =>
      isIgnored_eq_false_iff.mp (seen name member)
    rw [last held some] at extension
    obtain ⟨name, ends, source⟩ := Option.bind_eq_some_iff.mp extension
    obtain ⟨stem, rfl⟩ := (python_iff (shown name (List.mem_of_getLast? ends))).mp source
    exact ⟨⟨content, held⟩, shown, stem, ends⟩
  · rintro ⟨⟨content, held⟩, shown, stem, ends⟩
    have some : names ≠ [] := by
      rintro rfl
      cases ends
    refine ⟨some, ⟨content, held⟩, fun name member =>
      isIgnored_eq_false_iff.mpr (shown name member), ?_⟩
    rw [last held some, ends]
    exact (python_iff (shown _ (List.mem_of_getLast? ends))).mpr ⟨stem, rfl⟩

private theorem mem_sourceFiles (proper : Proper tree) :
    path ∈ sourceFiles tree place root ↔
      ∃ names, SourceAt tree place names ∧ path = names.foldl Path.join root := by
  rw [sourceFiles_eq, List.mem_map]
  constructor
  · rintro ⟨names, listed, rfl⟩
    exact ⟨names, (mem_sources proper).mp listed, rfl⟩
  · rintro ⟨names, source, rfl⟩
    exact ⟨names, (mem_sources proper).mpr source, rfl⟩

private theorem sourceFiles_nodup (proper : Proper tree) (place : Place) (root : String) :
    (sourceFiles tree place root).Nodup := by
  have plain : ∀ names ∈ tree.namesBelow place (isSource root), ∀ name ∈ names,
      PlainName name := by
    intro names listed name member
    obtain ⟨content, held⟩ := ((mem_sources proper).mp listed).held
    exact proper.plain_of_node? held name (List.mem_append_right _ member)
  rw [sourceFiles_eq]
  refine List.Nodup.map_on (fun names listed others there same => ?_) (namesBelow_nodup proper)
  exact joined_injective (plain names listed) (plain others there) same

/-- The files of an application are the sources of the package that has its name. -/
structure ListsSources (tree : FileTree) (root : String) (place : Place) (files : AppFiles) :
    Prop where
  rooted : files.rootPath = Path.join root files.name
  sources : ∀ path, path ∈ files.pythonFiles ↔
    ∃ names, SourceAt tree (place ++ [files.name]) names ∧
      path = names.foldl Path.join files.rootPath
  once : files.pythonFiles.Nodup
  roles : files.Sorted

private theorem listsSources_filesOf (proper : Proper tree) (root : String) (place : Place)
    (name : String) : ListsSources tree root place (filesOf tree place root name) where
  rooted := rfl
  sources _ := mem_sourceFiles proper
  once := sourceFiles_nodup proper _ _
  roles := AppFiles.sorted_ofPaths name _ _

/-- What a survey tells about what is below a root. -/
structure Exact (tree : FileTree) (root : String) (found : Survey) : Prop where
  success_iff : found.success = true ↔ found.errors = []
  errors_iff : found.errors = [] ↔ found.applications ≠ []
  failed : found.success = false → found.discovered = []
  discovered : found.discovered = found.applications.map AppFiles.name
  increasing : found.discovered.Pairwise (· < ·)
  packages : ∀ name, name ∈ found.discovered ↔
    ∃ place, tree.look root = .ok (place, .directory) ∧ PackageAt tree place name
  sources : ∀ files ∈ found.applications, ∀ place, tree.look root = .ok (place, .directory) →
    ListsSources tree root place files

/-- A survey without applications is exact if there is no package below the root. -/
theorem exact_of_failed {cause : ScanError} (failed : scan tree root = .error cause)
    (none : ∀ place, tree.look root = .ok (place, .directory) → ∀ name,
      ¬ PackageAt tree place name) : Exact tree root (survey tree root) := by
  rw [survey, failed]
  refine ⟨by simp, by simp, fun _ => rfl, rfl, List.Pairwise.nil, fun name => ?_, by simp⟩
  refine ⟨fun listed => absurd listed List.not_mem_nil, ?_⟩
  rintro ⟨place, look, package⟩
  exact absurd package (none place look name)

/-- A survey that lists the packages below the root is exact. -/
theorem exact_of_packages (proper : Proper tree) (look : tree.look root = .ok (place, .directory))
    (some : packages tree place ≠ []) : Exact tree root (survey tree root) := by
  have told : survey tree root =
      ⟨true, packages tree place, (packages tree place).map (filesOf tree place root), []⟩ := by
    rw [survey, scan_eq look, if_neg some]
    have names : ((packages tree place).map (filesOf tree place root)).map AppFiles.name =
        packages tree place := by
      rw [List.map_map]
      exact List.map_id _
    simp only [names]
  rw [told]
  refine ⟨by simp, by simpa using some, by simp, ?_, packages_increasing proper place,
    fun name => ?_, ?_⟩
  · rw [List.map_map]
    exact (List.map_id _).symm
  · rw [mem_packages proper]
    constructor
    · intro package
      exact ⟨place, look, package⟩
    · rintro ⟨other, same, package⟩
      rw [look] at same
      cases same
      exact package
  · intro files listed other same
    rw [look] at same
    cases same
    obtain ⟨name, _, rfl⟩ := List.mem_map.mp listed
    exact listsSources_filesOf proper root place name

/-- Every survey of a proper tree is an exact inventory. -/
theorem survey_exact (proper : Proper tree) (root : String) :
    Exact tree root (survey tree root) := by
  cases look : tree.look root with
  | error cause =>
    refine exact_of_failed (by rw [scan, look]) fun place other => ?_
    rw [look] at other
    cases other
  | ok result =>
    obtain ⟨place, node⟩ := result
    cases node with
    | file content =>
      refine exact_of_failed (by rw [scan, look]) fun place other => ?_
      rw [look] at other
      cases other
    | directory =>
      by_cases empty : packages tree place = []
      · refine exact_of_failed (by rw [scan_eq look, if_pos empty]) ?_
        intro other same name package
        rw [look] at same
        cases same
        have listed := (mem_packages proper).mpr package
        rw [empty] at listed
        cases listed
      · exact exact_of_packages proper look empty

/-- A project with a package, a hidden one and a directory that is none. -/
def storeTree : FileTree :=
  ⟨[(["project"], .directory),
    (["project", ".trash"], .directory),
    (["project", ".trash", "__init__.py"], .file (.text "")),
    (["project", "static"], .directory),
    (["project", "static", "views.py"], .file (.text "")),
    (["project", "store"], .directory),
    (["project", "store", "__init__.py"], .file (.text "")),
    (["project", "store", "models"], .directory),
    (["project", "store", "models", "order.py"], .file (.text "")),
    (["project", "store", "models", "__pycache__"], .directory),
    (["project", "store", "models", "__pycache__", "order.py"], .file (.binary [0xff]))]⟩

/-- The survey of the project finds the package and neither of the others. -/
theorem store_surveyed : storeTree.Proper ∧ Exact storeTree "project" (survey storeTree "project") ∧
    "store" ∈ (survey storeTree "project").discovered ∧
    ".trash" ∉ (survey storeTree "project").discovered ∧
    "static" ∉ (survey storeTree "project").discovered := by
  have proper : storeTree.Proper := by decide +kernel
  have look : storeTree.look "project" = .ok (["project"], .directory) := by rfl
  have exact := survey_exact proper "project"
  refine ⟨proper, exact, (exact.packages "store").mpr ⟨["project"], look, ?_⟩, fun listed => ?_,
    fun listed => ?_⟩
  · exact ⟨⟨by decide, by decide⟩, rfl, .text "", rfl⟩
  · obtain ⟨_, _, package⟩ := (exact.packages ".trash").mp listed
    exact package.shown.visible rfl
  · obtain ⟨_, same, package⟩ := (exact.packages "static").mp listed
    rw [look] at same
    cases same
    obtain ⟨_, marked⟩ := package.marked
    cases marked

end Inventory
end ApiScribe
