import ApiScribe.Proofs.FileTree.Saving
import ApiScribe.TypeScript.Files
import Mathlib.Data.List.Nodup

/-! The declaration files of one call lie in one directory: the common one, one
for each application and the index. The files of applications are told apart by
the names of the applications, and two names are taken already. Within a file
the declarations are told apart by their names, and a name that comes up again
is reported. -/
namespace ApiScribe
open Text

namespace FileTree

private theorem steps_ending {path file : String} (plain : '/' ∉ file.toList) (proper : file ≠ "")
    (ends : path = file ∨ ∃ front, path.toList = front ++ '/' :: file.toList) :
    (steps path).getLast? = some file := by
  have whole : splitAt (· == '/') file.toList = [file.toList] := by
    apply splitAt_of_none
    intro c member
    have other : c ≠ '/' := fun slash => plain (slash ▸ member)
    simpa using other
  have kept : [file.toList].filter (fun segment => !segment.isEmpty) = [file.toList] := by
    simpa using proper
  rcases ends with rfl | ⟨front, below⟩
  · rw [steps, whole, kept]
    simp
  · rw [steps, below, splitAt_append (by rfl), whole, List.filter_append, kept]
    simp

theorem join_ending (directory file : String) :
    Path.join directory file = file ∨
      ∃ front, (Path.join directory file).toList = front ++ '/' :: file.toList := by
  rw [Path.join]
  split
  · exact .inl rfl
  · right
    by_cases closed : endsWith directory "/" = true
    · rw [if_pos closed]
      obtain ⟨front, whole⟩ := List.isSuffixOf_iff_suffix.mp closed
      refine ⟨front, ?_⟩
      rw [String.toList_append, ← whole, List.append_assoc]
      rfl
    · rw [if_neg closed]
      exact ⟨directory.toList, by simp [String.toList_append]⟩

/-- A file in a directory is found under its own name. -/
theorem lastName?_join {file : String} (directory : String) (plain : '/' ∉ file.toList)
    (long : 2 < file.length) : lastName? (Path.join directory file) = some file := by
  have named (short : String) (bound : short.length ≤ 2) : file ≠ short := by
    rintro rfl
    omega
  have last := steps_ending plain (named "" (by decide)) (join_ending directory file)
  rw [lastName?, last]
  simp [named "." (by decide), named ".." (by decide)]

/-- A path ends in a name that ends as the path does. -/
theorem lastName?_ending {path : String} {ending : List Char} (plain : '/' ∉ ending)
    (long : 2 < ending.length) (ends : ending <:+ path.toList) :
    ∃ name, lastName? path = some name ∧ ending <:+ name.toList := by
  -- What stands behind the last slash, or the whole path.
  obtain ⟨file, free, split⟩ : ∃ file : List Char, '/' ∉ file ∧
      (path.toList = file ∨ ∃ front, path.toList = front ++ '/' :: file) := by
    by_cases slash : '/' ∈ path.toList.reverse
    · obtain ⟨file, front, whole, free⟩ := List.eq_append_cons_of_mem slash
      refine ⟨file.reverse, by simpa using free, .inr ⟨front.reverse, ?_⟩⟩
      simpa using congrArg List.reverse whole
    · exact ⟨path.toList, by simpa using slash, .inl rfl⟩
  have below : ending <:+ file := by
    rcases split with whole | ⟨front, whole⟩
    · rwa [whole] at ends
    · rw [whole] at ends
      rcases List.suffix_or_suffix_of_suffix ends (List.suffix_append front ('/' :: file)) with
        inside | around
      · rcases List.suffix_cons_iff.mp inside with rfl | inside
        · exact absurd List.mem_cons_self plain
        · exact inside
      · exact absurd (around.subset List.mem_cons_self) plain
  have longer := below.length_le
  have other (short : String) (bound : short.length ≤ 2) : String.ofList file ≠ short := by
    rintro rfl
    rw [String.length_ofList] at bound
    omega
  have last : (steps path).getLast? = some (String.ofList file) := by
    refine steps_ending (by simpa using free) (other "" (by decide)) ?_
    rcases split with whole | ⟨front, whole⟩
    · exact .inl (by rw [← whole, String.ofList_toList])
    · exact .inr ⟨front, by simpa using whole⟩
  refine ⟨String.ofList file, ?_, by simpa using below⟩
  rw [lastName?, last]
  simp [other "." (by decide), other ".." (by decide)]

end FileTree

namespace TypeScript
open FileTree (Apart lastName?)
open Saved (filePaths filePaths_append)

/-- The name under which the index stands beside the modules. -/
def indexModule : String := "index"

/-- Every module has one file, and so do the shared declarations and the index. -/
def fileModules (modules : List Module) : List String :=
  commonModule :: modules.map Module.app ++ [indexModule]

private theorem filePaths_problems (found : List α) (path : String) (problem : α → RenderProblem) :
    filePaths (found.map fun name => .problem path (problem name)) = [] := by
  simp [filePaths, Emission.path?]

private theorem filePaths_fileEmissions (config : Config) (title module : String)
    (imports : List Import) (declarations : List Declaration) :
    filePaths (fileEmissions config title module imports declarations) =
      [modulePath config.output.typescriptDir module] := by
  rw [fileEmissions, filePaths_append, filePaths_problems]
  rfl

private theorem filePaths_moduleEmissions (config : Config) (owners : Owners)
    (modules : List Module) :
    filePaths (moduleEmissions config owners modules).1 =
      (modules.map Module.app).map (modulePath config.output.typescriptDir) := by
  induction modules generalizing owners with
  | nil => rfl
  | cons module rest ih =>
    rw [moduleEmissions, filePaths_append, filePaths_append, filePaths_fileEmissions,
      filePaths_problems, ih]
    rfl

/-- A run writes one file for each module, the common one and the index among them. -/
theorem filePaths_emissions (config : Config) (modules : List Module) :
    filePaths (emissions config modules) =
      (fileModules modules).map (modulePath config.output.typescriptDir) := by
  rw [emissions, filePaths_append, filePaths_append, filePaths_fileEmissions,
    filePaths_moduleEmissions, fileModules]
  simp only [List.cons_append, List.nil_append, List.map_cons, List.map_append]
  rfl

/-- The files of two modules are told apart by the names of the modules. -/
theorem modulePath_apart {first second : String} (directory : String)
    (plain : '/' ∉ first.toList) (otherPlain : '/' ∉ second.toList) (different : first ≠ second) :
    Apart (modulePath directory first) (modulePath directory second) := by
  have named {module : String} (plain : '/' ∉ module.toList) :
      lastName? (modulePath directory module) = some (module ++ ".d.ts") := by
    apply FileTree.lastName?_join
    · simpa [String.toList_append] using plain
    · have ending : ".d.ts".length = 5 := by decide
      rw [String.length_append]
      omega
  refine ⟨_, named plain, _, named otherPlain, ?_⟩
  intro same
  exact different (String.append_left_inj _ |>.mp same)

theorem mem_fileModules_plain {modules : List Module}
    (directories : ∀ module ∈ modules, '/' ∉ module.app.toList) (member : name ∈ fileModules modules) :
    '/' ∉ name.toList := by
  simp only [fileModules, List.cons_append, List.mem_cons, List.mem_append, List.mem_map,
    List.not_mem_nil, or_false] at member
  rcases member with rfl | ⟨module, listed, rfl⟩ | rfl
  · decide
  · exact directories module listed
  · decide

/-- Names of applications are taken when they are those of the other files. -/
theorem fileModules_nodup_iff {modules : List Module} (distinct : (modules.map Module.app).Nodup) :
    (fileModules modules).Nodup ↔
      ∀ module ∈ modules, module.app ≠ commonModule ∧ module.app ≠ indexModule := by
  have reserved : commonModule ≠ indexModule := by decide
  rw [fileModules, List.cons_append, List.nodup_cons, List.nodup_append]
  constructor
  · rintro ⟨common, -, -, index⟩ module listed
    have named := List.mem_map_of_mem (f := Module.app) listed
    refine ⟨fun same => common (List.mem_append_left _ (same ▸ named)), fun same => ?_⟩
    exact index _ named _ (List.mem_singleton_self _) same
  · intro free
    refine ⟨fun taken => ?_, distinct, List.nodup_singleton _, fun name listed last ends same => ?_⟩
    · rcases List.mem_append.mp taken with listed | ends
      · obtain ⟨module, member, same⟩ := List.mem_map.mp listed
        exact (free module member).1 same
      · exact reserved (List.mem_singleton.mp ends)
    · obtain ⟨module, member, named⟩ := List.mem_map.mp listed
      exact (free module member).2 (named.trans (same.trans (List.mem_singleton.mp ends)))

private theorem paths_apart {modules : List Module} (config : Config)
    (directories : ∀ module ∈ modules, '/' ∉ module.app.toList)
    (distinct : (fileModules modules).Nodup) :
    (filePaths (emissions config modules)).Pairwise Apart := by
  rw [filePaths_emissions, List.pairwise_map]
  refine List.Pairwise.imp_of_mem (fun first second different => ?_) distinct
  exact modulePath_apart _ (mem_fileModules_plain directories first)
    (mem_fileModules_plain directories second) different

/-- An emission reports a name that one file declares twice. -/
def ReportsRepeat : Emission → Prop
  | .problem _ (.repeatedName _) => True
  | _ => False

instance : DecidablePred ReportsRepeat
  | .problem _ (.repeatedName _) => .isTrue trivial
  | .problem _ (.exportedBefore ..) => .isFalse id
  | .file .. => .isFalse id

private theorem repeated_eq_nil_iff {seen : List String} {declarations : List Declaration} :
    (firstDeclarations seen declarations).2 = [] ↔
      (declarations.map Declaration.name).Nodup ∧
        ∀ declaration ∈ declarations, declaration.name ∉ seen := by
  induction declarations generalizing seen with
  | nil => simp [firstDeclarations]
  | cons first rest ih =>
    rw [firstDeclarations]
    by_cases known : first.name ∈ seen
    · rw [if_pos (by simpa using known)]
      simp [known]
    · rw [if_neg (by simpa using known)]
      show (firstDeclarations (first.name :: seen) rest).2 = [] ↔ _
      rw [ih, List.map_cons, List.nodup_cons]
      constructor
      · rintro ⟨distinct, fresh⟩
        refine ⟨⟨fun repeated => ?_, distinct⟩, ?_⟩
        · obtain ⟨later, member, same⟩ := List.mem_map.mp repeated
          exact fresh later member (same ▸ List.mem_cons_self)
        · rintro declaration (_ | ⟨_, later⟩)
          · exact known
          · exact fun seen => fresh declaration later (List.mem_cons_of_mem _ seen)
      · rintro ⟨⟨absent, distinct⟩, fresh⟩
        refine ⟨distinct, fun later member again => ?_⟩
        rcases List.mem_cons.mp again with same | seen
        · exact absent (List.mem_map.mpr ⟨later, member, same⟩)
        · exact fresh later (List.mem_cons_of_mem _ member) seen

private theorem fileEmissions_report_iff {declarations : List Declaration} :
    (∃ emission ∈ fileEmissions config title module imports declarations,
      ReportsRepeat emission) ↔ ¬ (declarations.map Declaration.name).Nodup := by
  have repeats : (firstDeclarations [] declarations).2 = [] ↔
      (declarations.map Declaration.name).Nodup := by
    rw [repeated_eq_nil_iff]
    exact and_iff_left fun _ _ => List.not_mem_nil
  rw [← repeats, fileEmissions]
  constructor
  · rintro ⟨emission, listed, reports⟩ none
    simp only [none, List.map_nil, List.nil_append, List.mem_singleton] at listed
    subst listed
    exact reports
  · intro some
    obtain ⟨name, named⟩ := List.exists_mem_of_ne_nil _ some
    exact ⟨_, List.mem_append_left _ (List.mem_map_of_mem named), trivial⟩

/-- Whether a module repeats a name does not depend on the modules beside it. -/
theorem moduleEmissions_report_iff {owners : Owners} {modules : List Module} :
    (∃ emission ∈ (moduleEmissions config owners modules).1, ReportsRepeat emission) ↔
      ∃ module ∈ modules, ¬ (module.declarations.map Declaration.name).Nodup := by
  induction modules generalizing owners with
  | nil => simp [moduleEmissions]
  | cons module rest ih =>
    simp only [moduleEmissions, List.mem_append, or_and_right, exists_or,
      List.exists_mem_cons_iff, ih, fileEmissions_report_iff]
    apply or_congr_left
    apply or_iff_left
    rintro ⟨emission, taken, reports⟩
    obtain ⟨_, _, rfl⟩ := List.mem_map.mp taken
    exact reports

/-- A repeated declaration is reported exactly if a module has one. -/
theorem emissions_report_iff {modules : List Module} :
    (∃ emission ∈ emissions config modules, ReportsRepeat emission) ↔
      ∃ module ∈ modules, ¬ (module.declarations.map Declaration.name).Nodup := by
  have common : (commonDeclarations.map Declaration.name).Nodup := by decide
  simp only [emissions, List.mem_append, or_and_right, exists_or, fileEmissions_report_iff,
    moduleEmissions_report_iff, List.mem_singleton]
  simp [common, ReportsRepeat]

/-- A tree holds the file of an emission with its own text. -/
def PresentIn (tree : FileTree) : Emission → Prop
  | .file path text => tree.read path = .ok text
  | .problem _ _ => True

instance (tree : FileTree) : DecidablePred (PresentIn tree)
  | .file path text => inferInstanceAs (Decidable (tree.read path = .ok text))
  | .problem _ _ => .isTrue trivial

/-- The files of one call are the common one, one for each module and the index.
Their paths are distinct when no application is called like one of the other
two files, and then every file that is reported as written is there at the end
with its own text. Applications are named by directories, so their names are
distinct and hold no slash. -/
theorem paths_distinct_iff {modules : List Module} (config : Config)
    (directories : ∀ module ∈ modules, '/' ∉ module.app.toList)
    (distinct : (modules.map Module.app).Nodup) :
    filePaths (emissions config modules) =
        (fileModules modules).map (modulePath config.output.typescriptDir) ∧
      ((filePaths (emissions config modules)).Nodup ↔
        ∀ module ∈ modules, module.app ≠ commonModule ∧ module.app ≠ indexModule) ∧
      ((∀ module ∈ modules, module.app ≠ commonModule ∧ module.app ≠ indexModule) →
        ∀ dryRun tree, ∀ emission ∈ emissions config modules,
          (∀ path ∈ emission.path?,
            path ∈ (Saved.emitAll dryRun { tree } (emissions config modules)).written) →
          PresentIn (Saved.emitAll dryRun { tree } (emissions config modules)).tree emission) := by
  have apart (free : ∀ module ∈ modules, module.app ≠ commonModule ∧ module.app ≠ indexModule) :
      (filePaths (emissions config modules)).Pairwise Apart :=
    paths_apart config directories ((fileModules_nodup_iff distinct).mpr free)
  refine ⟨filePaths_emissions config modules, ⟨fun different => ?_, fun free => ?_⟩, ?_⟩
  · rw [filePaths_emissions] at different
    exact (fileModules_nodup_iff distinct).mp (List.Nodup.of_map _ different)
  · refine (apart free).imp fun {first second} separate => ?_
    rintro rfl
    exact FileTree.Apart.irrefl separate
  · intro free dryRun tree emission listed written
    cases emission with
    | problem path problem => trivial
    | file path text =>
      exact (Saved.emitAll_hasFile (apart free) listed List.not_mem_nil (written path rfl)).read

/-- The module of an application that only reports its health. -/
def healthModule (app : String) : Module :=
  { app, imports := []
    declarations := [.aliasOf "HealthResponse" .anyObject "Response of GET /health/"] }

/-- What comes of writing the files of one module into an empty tree. -/
def healthRun (app : String) : Saved :=
  Saved.emitAll false { tree := .empty } (emissions {} [healthModule app])

theorem shop_files_kept :
    ([healthModule "shop"].map Module.app).Nodup ∧
      (filePaths (emissions {} [healthModule "shop"])).Nodup ∧
      (healthRun "shop").written = filePaths (emissions {} [healthModule "shop"]) ∧
      ∀ emission ∈ emissions {} [healthModule "shop"],
        PresentIn (healthRun "shop").tree emission := by
  have written : (healthRun "shop").written = filePaths (emissions {} [healthModule "shop"]) := by
    decide +kernel
  have directories : ∀ module ∈ [healthModule "shop"], '/' ∉ module.app.toList := by decide
  have free : ∀ module ∈ [healthModule "shop"],
      module.app ≠ commonModule ∧ module.app ≠ indexModule := by decide
  obtain ⟨_, distinct, present⟩ := paths_distinct_iff {} directories (by decide)
  refine ⟨by decide, distinct.mpr free, written, fun emission listed => ?_⟩
  exact present free false .empty emission listed fun path named =>
    written ▸ List.mem_filterMap.mpr ⟨emission, listed, named⟩

/-- An application called `common` leaves nothing of the shared declarations. -/
theorem common_app_overwrites :
    ([healthModule "common"].map Module.app).Nodup ∧
      (∀ module ∈ [healthModule "common"], '/' ∉ module.app.toList) ∧
      ¬ (filePaths (emissions {} [healthModule "common"])).Nodup ∧
      (healthRun "common").written = filePaths (emissions {} [healthModule "common"]) ∧
      ∃ emission ∈ emissions {} [healthModule "common"],
        ¬ PresentIn (healthRun "common").tree emission := by
  decide +kernel

end TypeScript
end ApiScribe
