import ApiScribe.Inventory
import ApiScribe.Proofs.FileTree.Changes
import ApiScribe.Proofs.FileTree.Joined
import ApiScribe.Proofs.FileTree.Listing

/-! What an inventory depends on. The applications of a project are the packages
below its root, whatever other directories come up beside them, and the sources
of one are the files below it with the extension of sources. So of the files
that a run saves only one that is called like a source can change what the next
inventory finds. -/
namespace ApiScribe

namespace Inventory
open FileTree

variable {tree before after : FileTree} {place : Place} {root path name : String}
  {names : List String}

/-- A file that is a source of what lies under a path. -/
def isSource (path : String) : Place × Node → Bool
  | (_, .directory) => false
  | (names, .file _) =>
    !(names.any isIgnored || Path.extension? (names.foldl Path.join path) != some "py")

theorem sourceFiles_eq (tree : FileTree) (place : Place) (path : String) :
    sourceFiles tree place path =
      (tree.namesBelow place (isSource path)).map (·.foldl Path.join path) := by
  rw [sourceFiles, namesBelow, List.map_map, ← List.filterMap_eq_map, List.filterMap_filter]
  congr 1
  funext entry
  obtain ⟨names, node⟩ := entry
  cases node with
  | directory => rfl
  | file content =>
    cases passed : names.any isIgnored || Path.extension? (names.foldl Path.join path) != some "py"
      <;> simp only [isSource, passed] <;> rfl

/-- A name under which a package stands below a place. -/
def isMarked (tree : FileTree) (place : Place) (name : String) : Bool :=
  !isIgnored name && match tree.node? (place ++ [name, packageMarker]) with
    | some (.file _) => true
    | _ => false

/-- A directory that is an application package. -/
def isPackage (tree : FileTree) (place : Place) : Place × Node → Bool
  | ([name], .directory) => isMarked tree place name
  | _ => false

/-- The packages directly below a place. -/
def packages (tree : FileTree) (place : Place) : List String :=
  (tree.namesBelow place (isPackage tree place)).map (·.headD "")

/-- What an inventory tells about a package. -/
def filesOf (tree : FileTree) (place : Place) (root name : String) : AppFiles :=
  .ofPaths name (Path.join root name)
    (sourceFiles tree (place ++ [name]) (Path.join root name))

private theorem package?_eq (tree : FileTree) (place : Place) (root name : String) :
    package? tree place root name =
      if isMarked tree place name then some (filesOf tree place root name) else none := by
  rw [package?, isMarked]
  cases isIgnored name with
  | true => rfl
  | false =>
    rcases tree.node? (place ++ [name, packageMarker]) with _ | (_ | _) <;> rfl

private theorem packages_eq (tree : FileTree) (place : Place) (root : String) :
    (directories tree place).filterMap (package? tree place root) =
      (packages tree place).map (filesOf tree place root) := by
  rw [directories, packages, namesBelow, List.filterMap_filterMap, List.map_map, List.map_map,
    ← List.filterMap_eq_map, List.filterMap_filter]
  congr 1
  funext entry
  obtain ⟨names, node⟩ := entry
  -- Only one name and a directory make a package; everything else is passed over.
  rcases names with _ | ⟨name, _ | ⟨second, rest⟩⟩ <;> cases node
  case cons.nil.directory => exact package?_eq tree place root name
  all_goals rfl

/-- An inventory of a project whose root is there lists its packages. -/
theorem scan_eq (look : tree.look root = .ok (place, .directory)) :
    scan tree root =
      if packages tree place = [] then .error (.noPackages root)
      else .ok ((packages tree place).map (filesOf tree place root)) := by
  rw [scan, look]
  simp only [packages_eq]
  cases packages tree place <;> rfl

/-- A package is told by the file that marks it, which makes a directory of the
place above. -/
theorem mem_packageNames (proper : Proper tree) :
    names ∈ tree.namesBelow place (isPackage tree place) ↔
      ∃ name, names = [name] ∧ isIgnored name = false ∧
        ∃ content, tree.node? (place ++ [name, packageMarker]) = some (.file content) := by
  rw [mem_namesBelow proper]
  constructor
  · rintro ⟨_, node, held, kind⟩
    match names, node, kind with
    | [name], .directory, kind =>
      rw [isPackage, isMarked, Bool.and_eq_true] at kind
      obtain ⟨seen, marked⟩ := kind
      refine ⟨name, rfl, by simpa using seen, ?_⟩
      split at marked
      · next content marker => exact ⟨content, marker⟩
      · cases marked
  · rintro ⟨name, rfl, seen, content, marker⟩
    have directory : tree.node? (place ++ [name]) = some .directory := by
      apply proper.above (List.cons_ne_nil packageMarker [])
      rw [List.append_assoc]
      exact marker
    exact ⟨by simp, .directory, directory, by simp [isPackage, isMarked, seen, marker]⟩

theorem mem_sourceNames (proper : Proper tree) :
    names ∈ tree.namesBelow place (isSource path) ↔
      names ≠ [] ∧ (∃ content, tree.node? (place ++ names) = some (.file content)) ∧
        (∀ name ∈ names, isIgnored name = false) ∧
        Path.extension? (names.foldl Path.join path) = some "py" := by
  rw [mem_namesBelow proper]
  refine and_congr_right fun some => ?_
  constructor
  · rintro ⟨node, held, kind⟩
    cases node with
    | directory => cases kind
    | file content =>
      simp only [isSource, Bool.not_eq_true', Bool.or_eq_false_iff, List.any_eq_false,
        bne_eq_false_iff_eq, Bool.not_eq_true] at kind
      exact ⟨⟨content, held⟩, kind.1, kind.2⟩
  · rintro ⟨⟨content, held⟩, seen, extension⟩
    exact ⟨.file content, held, by simp_all [isSource]⟩

/-- A source is found under its path, which ends with its name. -/
theorem source_located (proper : Proper tree) (look : tree.look root = .ok (place, .directory))
    (listed : path ∈ (filesOf tree place root name).pythonFiles) (plain : PlainName name) :
    Path.Closed path ∧ ∃ found content, tree.locate path = .ok found ∧
      tree.node? found = some (.file content) ∧
      ∃ last, found.getLast? = some last ∧ (Path.cutName last).2 = some "py" := by
  have sources : path ∈ sourceFiles tree (place ++ [name]) (Path.join root name) := listed
  rw [sourceFiles_eq, List.mem_map] at sources
  obtain ⟨names, inside, rfl⟩ := sources
  obtain ⟨further, ⟨content, held⟩, _, extension⟩ := (mem_sourceNames proper).mp inside
  have each : ∀ name ∈ names, PlainName name := fun other member =>
    proper.plain_of_node? held other (List.mem_append_right _ member)
  rw [extension?_joined _ further each] at extension
  obtain ⟨last, ends, source⟩ := Option.bind_eq_some_iff.mp extension
  have closed : Path.Closed (names.foldl Path.join (Path.join root name)) := by
    obtain ⟨front, last, rfl⟩ := (List.eq_nil_or_concat' names).resolve_left further
    rw [List.foldl_append]
    exact closed_join _ (each last (by simp))
  have whole : ∀ other ∈ name :: names, PlainName other := List.forall_mem_cons.mpr ⟨plain, each⟩
  have located : tree.locate (names.foldl Path.join (Path.join root name)) =
      .ok (place ++ name :: names) := by
    have held' : tree.node? (place ++ name :: names) = some (.file content) := by
      simpa using held
    rw [locate_of_ne (closed_ne_empty closed), steps_joined _ each, steps_join _ plain,
      List.append_assoc, follow_append, look_followed look]
    exact proper.follow_plain whole held'
  refine ⟨closed, place ++ name :: names, content, located, by simpa using held, last, ?_, source⟩
  rw [List.getLast?_append_of_ne_nil _ (List.cons_ne_nil _ _), ← ends]
  exact List.getLast?_append_of_ne_nil [name] further

/-! Inventories before and after a run. -/

/-- A file has come up below a place, at a path and under names that are not
passed over. -/
def Gains (before after : FileTree) (place : Place) (path : String) : Prop :=
  ∃ names, names ≠ [] ∧ (∀ name ∈ names, isIgnored name = false) ∧
    after.locate path = .ok (place ++ names) ∧ before.node? (place ++ names) = none ∧
    ∃ content, after.node? (place ++ names) = some (.file content)

section Saved
variable {paths : List String} {settings : String} (proper : Proper before)
  (afterProper : Proper after) (changes : ChangesOnly paths before after)
include proper afterProper changes

/-- Nothing but packages that were there are packages after files of other names
have been saved. -/
theorem packages_kept (named : ∀ path ∈ paths, ∃ name, lastName? path = some name ∧
    name ≠ packageMarker) (place : Place) : packages after place = packages before place := by
  have marked (name : String) :
      (∃ content, after.node? (place ++ [name, packageMarker]) = some (.file content)) ↔
        ∃ content, before.node? (place ++ [name, packageMarker]) = some (.file content) := by
    rcases changes (place ++ [name, packageMarker]) with
      same | ⟨none, gained⟩ | ⟨_, _, path, member, located⟩
    · rw [same]
    · rw [none, gained]
      simp
    · obtain ⟨last, lastName, other⟩ := named path member
      have ends := locate_last lastName located
      have marker : (place ++ [name, packageMarker]).getLast? = some packageMarker := by simp
      exact absurd (Option.some.inj (ends.symm.trans marker)) other
  rw [packages, packages]
  congr 1
  refine namesBelow_eq afterProper proper fun names => ?_
  rw [mem_packageNames afterProper, mem_packageNames proper]
  simp only [marked]

private theorem sourceNames_mono (place : Place) (path : String) :
    before.namesBelow place (isSource path) ⊆ after.namesBelow place (isSource path) := by
  intro names
  rw [mem_sourceNames proper, mem_sourceNames afterProper]
  rintro ⟨some, ⟨content, held⟩, others⟩
  refine ⟨some, ?_, others⟩
  rcases changes (place ++ names) with same | ⟨none, _⟩ | ⟨_, written, _⟩
  · exact ⟨content, same.trans held⟩
  · rw [held] at none
    cases none
  · exact written

/-- A source that was none before has come up where the settings are. -/
theorem gains_of_source (python : ∀ path ∈ paths, ∃ name, lastName? path = some name ∧
      ((Path.cutName name).2 = some "py" → path = settings))
    (listed : names ∈ after.namesBelow place (isSource path))
    (fresh : names ∉ before.namesBelow place (isSource path)) :
    Gains before after place settings := by
  rw [mem_sourceNames afterProper] at listed
  rw [mem_sourceNames proper] at fresh
  obtain ⟨further, ⟨content, held⟩, seen, extension⟩ := listed
  have absent : ∀ content, before.node? (place ++ names) ≠ some (.file content) :=
    fun content there => fresh ⟨further, ⟨content, there⟩, seen, extension⟩
  rcases changes (place ++ names) with same | ⟨_, gained⟩ | ⟨free, _, saved, member, located⟩
  · exact absurd (same ▸ held) (absent content)
  · rw [held] at gained
    cases gained
  · obtain ⟨last, lastName, called⟩ := python saved member
    have ends := locate_last lastName located
    rw [List.getLast?_append_of_ne_nil _ further] at ends
    have plain : ∀ name ∈ names, PlainName name := fun name inside =>
      afterProper.plain_of_node? held name (List.mem_append_right _ inside)
    rw [extension?_joined path further plain, ends] at extension
    obtain rfl := called extension
    refine ⟨names, further, seen, located, ?_, content, held⟩
    cases there : before.node? (place ++ names) with
    | none => rfl
    | some node =>
      cases node with
      | directory => exact absurd there free
      | file content => exact absurd there (absent content)

/-- The sources below a place stay as they are unless the settings come up among
them, and then there is one more. -/
theorem sourceFiles_kept (python : ∀ path ∈ paths, ∃ name, lastName? path = some name ∧
      ((Path.cutName name).2 = some "py" → path = settings))
    (place : Place) (path : String) (unchanged : ¬ Gains before after place settings) :
    sourceFiles after place path = sourceFiles before place path := by
  rw [sourceFiles_eq, sourceFiles_eq]
  congr 1
  refine namesBelow_eq afterProper proper fun names => ⟨fun listed => ?_, fun listed => ?_⟩
  · by_contra fresh
    exact unchanged (gains_of_source proper afterProper changes python listed fresh)
  · exact sourceNames_mono proper afterProper changes place path listed

theorem sourceFiles_length_le (place : Place) (path : String) :
    (sourceFiles before place path).length ≤ (sourceFiles after place path).length := by
  rw [sourceFiles_eq, sourceFiles_eq, List.length_map, List.length_map]
  exact (List.subperm_of_subset (namesBelow_nodup proper)
    (sourceNames_mono proper afterProper changes place path)).length_le

theorem sourceFiles_length_lt {name : String} (lastName : lastName? settings = some name)
    (python : (Path.cutName name).2 = some "py") (place : Place) (path : String)
    (gains : Gains before after place settings) :
    (sourceFiles before place path).length < (sourceFiles after place path).length := by
  obtain ⟨names, further, seen, located, none, content, held⟩ := gains
  have ends := locate_last lastName located
  rw [List.getLast?_append_of_ne_nil _ further] at ends
  have plain : ∀ name ∈ names, PlainName name := fun name inside =>
    afterProper.plain_of_node? held name (List.mem_append_right _ inside)
  have extension : Path.extension? (names.foldl Path.join path) = some "py" := by
    rw [extension?_joined path further plain, ends]
    exact python
  have listed : names ∈ after.namesBelow place (isSource path) :=
    (mem_sourceNames afterProper).mpr ⟨further, ⟨content, held⟩, seen, extension⟩
  have fresh : names ∉ before.namesBelow place (isSource path) := by
    intro there
    obtain ⟨_, ⟨content, heldBefore⟩, _⟩ := (mem_sourceNames proper).mp there
    rw [none] at heldBefore
    cases heldBefore
  rw [sourceFiles_eq, sourceFiles_eq, List.length_map, List.length_map]
  have more := List.subperm_of_subset (List.nodup_cons.mpr ⟨fresh, namesBelow_nodup proper⟩)
    (List.cons_subset.mpr ⟨listed, sourceNames_mono proper afterProper changes place path⟩)
  exact more.length_le

end Saved

end Inventory
end ApiScribe
