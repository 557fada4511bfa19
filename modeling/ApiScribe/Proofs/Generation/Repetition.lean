import ApiScribe.Proofs.Generation.Outputs
import Mathlib.Algebra.GroupWithZero.Nat
import Mathlib.Algebra.Order.BigOperators.Group.List

/-! A run over what the run before it left. The second run selects the same packages,
since no output marks one, and reads the same sources unless the settings of the
documentation builder have become one of them. It then emits the same and saves it in
the same places. Settings that have become a source are counted as one, so that the
second run tells another number of source files and writes it into its pages. -/
namespace ApiScribe

namespace FileTree

/-- Files with the same content are read alike. -/
theorem HasFile.read_same {before after : FileTree} {path : String} {content : Content}
    (first : before.HasFile path content) (second : after.HasFile path content) :
    after.read path = before.read path := by
  obtain ⟨ends, place, located, held⟩ := first
  obtain ⟨_, again, relocated, heldAgain⟩ := second
  simp only [FileTree.read, look, ends, located, held, relocated, heldAgain, Bool.false_eq_true,
    if_false]
  cases content <;> rfl

end FileTree

namespace Generation
open FileTree (PlainName lastName?)

variable {config : Config} {tree : FileTree} {root : String} {apps : List AppFiles}

/-- The number of source files that the statistics of a run count. -/
theorem statistics_pythonFiles {result : Generation} {found : Project}
    (ran : result.project = some found) :
    result.statistics.lookup "python_files" =
      some (found.apps.map App.pythonFileCount).sum := by
  have sum (apps : List App) (start : Nat) :
      apps.foldl (fun sum app => sum + app.pythonFileCount) start =
        start + (apps.map App.pythonFileCount).sum := by
    induction apps generalizing start with
    | nil => simp
    | cons first rest ih => simp [ih, Nat.add_assoc]
  simp [statistics, ran, projectStatistics, sum, List.lookup_cons]

/-- The counted files are the sources of the packages that take part. -/
theorem run_pythonFiles (look : tree.look root = .ok (place, .directory))
    (some : chosenPackages config tree place ≠ []) :
    (run config none .all tree root).statistics.lookup "python_files" =
      Option.some ((chosenPackages config tree place).map fun name =>
        (Inventory.sourceFiles tree (place ++ [name]) (Path.join root name)).length).sum := by
  rw [run_ok ((selected_eq look).2 some), statistics_pythonFiles rfl, findings_alone]
  simp only [List.map_map]
  rfl

/-- The second of two runs does what the first one did and leaves everything as it was. -/
structure Repeats (first second : Generation) : Prop where
  written : second.written = first.written
  errors : second.errors = first.errors
  warnings : second.warnings = first.warnings
  statistics : second.statistics = first.statistics
  nodes : ∀ place, second.tree.node? place = first.tree.node? place

variable (config : Config) (tree : FileTree) (root : String)

/-- A run puts the settings where no file was, below an application that takes part
and under names that inventories do not pass over. -/
def AddsSource : Prop :=
  ∃ apps, selected config tree root = .ok apps ∧ ∃ files ∈ apps, ∃ place,
    tree.look root = .ok (place, .directory) ∧
      Inventory.Gains tree (left config tree root) (place ++ [files.name]) (settingsPath config)

/-- A run leaves the files that it was made from as they were. -/
def KeepsSources : Prop :=
  ∀ apps, selected config tree root = .ok apps → ∀ files ∈ apps, ∀ path ∈ App.roleFiles files,
    (left config tree root).read path = tree.read path

variable {config tree root}

/-- The next run selects the same packages. -/
theorem chosen_again (proper : tree.Proper) (chosen : selected config tree root = .ok apps)
    (look : tree.look root = .ok (place, .directory)) :
    (left config tree root).look root = .ok (place, .directory) ∧
      chosenPackages config (left config tree root) place = chosenPackages config tree place := by
  obtain ⟨leftProper, kinds, paths, outputs, changes⟩ := left_changes proper chosen
  refine ⟨FileTree.look_kept kinds.keepsDirectories look, ?_⟩
  have unmarked : ∀ path ∈ paths, ∃ name, lastName? path = some name ∧ name ≠ packageMarker := by
    intro path member
    obtain ⟨_, name, _, _, lastName, other, _⟩ := outputs path member
    exact ⟨name, lastName, other⟩
  rw [chosenPackages, chosenPackages,
    Inventory.packages_kept proper leftProper changes unmarked place]

private theorem lastName?_settings (config : Config) :
    lastName? (settingsPath config) = some "conf.py" :=
  FileTree.lastName?_join _ (by decide) (by decide)

/-- The next run counts the settings as a source too. -/
theorem statistics_ne_of_adds (proper : tree.Proper) (adds : AddsSource config tree root) :
    (run config none .all (left config tree root) root).statistics ≠
      (run config none .all tree root).statistics := by
  intro repeated
  obtain ⟨apps, chosen, files, member, place, look, gains⟩ := adds
  obtain ⟨leftProper, kinds, paths, outputs, changes⟩ := left_changes proper chosen
  obtain ⟨again, same⟩ := chosen_again proper chosen look
  obtain ⟨_, look', some, rfl⟩ := selected_cases chosen
  cases look.symm.trans look'
  obtain ⟨name, packaged, rfl⟩ := List.mem_map.mp member
  have first := run_pythonFiles look some
  have second := run_pythonFiles again (same ▸ some)
  rw [repeated, first, same] at second
  have less := List.sum_lt_sum
    (fun name => (Inventory.sourceFiles tree (place ++ [name]) (Path.join root name)).length)
    (fun name => (Inventory.sourceFiles (left config tree root) (place ++ [name])
      (Path.join root name)).length)
    (fun name _ => Inventory.sourceFiles_length_le proper leftProper changes _ _)
    ⟨name, packaged, Inventory.sourceFiles_length_lt proper leftProper changes
      (lastName?_settings config) (by decide) _ _ gains⟩
  exact absurd (Option.some.inj second) less.ne

/-- Unless the settings become a source, the next run finds the same files. -/
theorem selected_again (proper : tree.Proper) (chosen : selected config tree root = .ok apps)
    (unchanged : ¬ AddsSource config tree root) :
    selected config (left config tree root) root = .ok apps := by
  obtain ⟨leftProper, kinds, paths, outputs, changes⟩ := left_changes proper chosen
  obtain ⟨place, look, some, whole⟩ := selected_cases chosen
  obtain ⟨again, same⟩ := chosen_again proper chosen look
  have python : ∀ path ∈ paths, ∃ name, lastName? path = Option.some name ∧
      ((Path.cutName name).2 = Option.some "py" → path = settingsPath config) := by
    intro path member
    obtain ⟨_, name, _, _, lastName, _, source⟩ := outputs path member
    exact ⟨name, lastName, source⟩
  rw [(selected_eq again).2 (same ▸ some), same, whole]
  refine congrArg Except.ok (List.map_congr_left fun name packaged => ?_)
  have unadded : ¬ Inventory.Gains tree (left config tree root) (place ++ [name])
      (settingsPath config) := fun gains => unchanged
    ⟨apps, chosen, _, whole ▸ List.mem_map_of_mem packaged, place, look, gains⟩
  rw [Inventory.filesOf, Inventory.filesOf,
    Inventory.sourceFiles_kept proper leftProper changes python _ _ unadded]

/-- What is read as before is analyzed as before. -/
theorem findings_again (chosen : selected config tree root = .ok apps)
    (kept : KeepsSources config tree root) :
    findings config none (left config tree root) 0 apps = findings config none tree 0 apps := by
  have analyzed : ∀ files ∈ apps,
      App.analyze config.extraction (left config tree root) files =
        App.analyze config.extraction tree files := by
    intro files member
    have read : (App.roleFiles files).map (App.readFile (left config tree root)) =
        (App.roleFiles files).map (App.readFile tree) := by
      refine List.map_congr_left fun path listed => ?_
      rw [App.readFile, App.readFile, kept apps chosen files member path listed]
    rw [App.analyze, App.analyze, read]
  have found : apps.map (fun files =>
      keepEndpoints config (App.analyze config.extraction (left config tree root) files).1) =
        apps.map fun files => keepEndpoints config (App.analyze config.extraction tree files).1 :=
    List.map_congr_left fun files member => by rw [analyzed files member]
  have warned : apps.flatMap (fun files =>
      (App.analyze config.extraction (left config tree root) files).2) =
        apps.flatMap fun files => (App.analyze config.extraction tree files).2 :=
    List.flatMap_congr fun files member => by rw [analyzed files member]
  rw [findings_alone, findings_alone, found, warned]

/-- A run leaves everything as it was that it read, unless the settings go there. -/
theorem keepsSources_of_apart (proper : tree.Proper)
    (apart : ∀ apps, selected config tree root = .ok apps → ∀ files ∈ apps,
      ∀ path ∈ App.roleFiles files, ∀ place, tree.locate path = .ok place →
        (left config tree root).locate (settingsPath config) ≠ .ok place) :
    KeepsSources config tree root := by
  intro apps chosen files member path listed
  obtain ⟨leftProper, kinds, paths, outputs, changes⟩ := left_changes proper chosen
  obtain ⟨place, look, some, whole⟩ := selected_cases chosen
  have elsewhere := apart apps chosen files member path listed
  rw [whole] at member
  obtain ⟨name, packaged, rfl⟩ := List.mem_map.mp member
  have source : path ∈ (Inventory.filesOf tree place root name).pythonFiles :=
    App.mem_of_roleFiles listed
  obtain ⟨closed, found, content, located, held, last, ends, python⟩ :=
    Inventory.source_located proper look source (plain_chosen proper place name packaged)
  have again := FileTree.locate_kept kinds.keepsDirectories located
  have same : (left config tree root).node? found = tree.node? found := by
    rcases changes found with same | ⟨none, _⟩ | ⟨_, _, saved, output, there⟩
    · exact same
    · rw [held] at none
      cases none
    · obtain ⟨_, called, _, _, lastName, _, settings⟩ := outputs saved output
      have same := FileTree.locate_last lastName there
      rw [ends] at same
      cases same
      rw [settings python] at there
      exact absurd there (elsewhere found located)
  have ends := FileTree.closed_ends closed
  exact FileTree.HasFile.read_same ⟨ends, found, located, held⟩
    ⟨ends, found, again, same.trans held⟩

/-- A run without effect is repeated. -/
theorem repeats_of_left_eq (same : left config tree root = tree) :
    Repeats (run config none .all tree root)
      (run config none .all (left config tree root) root) := by
  rw [same]
  exact ⟨rfl, rfl, rfl, rfl, fun _ => rfl⟩

private theorem repeats_of_selected (proper : tree.Proper) (real : config.dryRun = false)
    (manageable : Saved.Manageable tree (emitted config none .all tree root))
    (chosen : selected config tree root = .ok apps)
    (again : selected config (left config tree root) root = .ok apps)
    (same : findings config none (left config tree root) 0 apps =
      findings config none tree 0 apps) :
    Repeats (run config none .all tree root)
      (run config none .all (left config tree root) root) := by
  have emits : emitted config none .all tree root =
      emissions config .all (findings config none tree 0 apps).apps := by
    rw [emitted, chosen]
  rw [emits] at manageable
  obtain ⟨written, errors, nodes⟩ :=
    Saved.emitAll_again proper (emissions_addressed proper chosen) manageable
  have leaves : left config tree root = (Saved.emitAll false { tree }
      (emissions config .all (findings config none tree 0 apps).apps)).tree := by
    rw [left, run_ok chosen, real]
  rw [run_ok chosen, run_ok again, same, real, leaves]
  exact ⟨written, errors, rfl, by simp only [statistics, written], nodes⟩

/-- A second run repeats the first one, as long as that changed nothing that it had
read, exactly if the settings did not become a source of an application. -/
theorem second_run_repeats_iff (proper : tree.Proper)
    (manageable : config.dryRun = false →
      Saved.Manageable tree (emitted config none .all tree root))
    (kept : KeepsSources config tree root) :
    Repeats (run config none .all tree root)
        (run config none .all (left config tree root) root) ↔
      ¬ AddsSource config tree root := by
  refine ⟨fun repeats adds => statistics_ne_of_adds proper adds repeats.statistics,
    fun unchanged => ?_⟩
  cases chosen : selected config tree root with
  | error error =>
    apply repeats_of_left_eq
    rw [left, run_stopped chosen]
  | ok apps =>
    cases real : config.dryRun with
    | true =>
      apply repeats_of_left_eq
      rw [left, run_ok chosen, real]
      exact (Saved.emitAll_dry _ _).1
    | false =>
      exact repeats_of_selected proper real (manageable real) chosen
        (selected_again proper chosen unchanged) (findings_again chosen kept)

/-- A shop with one model. -/
def shopTree : FileTree :=
  ⟨[(["project"], .directory),
    (["project", "shop"], .directory),
    (["project", "shop", "__init__.py"], .file (.text "")),
    (["project", "shop", "models.py"],
      .file (.text "class Item(Model):\n  title = CharField()\n"))]⟩

def shopFiles : AppFiles :=
  .ofPaths "shop" "project/shop" ["project/shop/__init__.py", "project/shop/models.py"]

private theorem shop_look : shopTree.look "project" = .ok (["project"], .directory) := by rfl

private theorem shop_selected (included : config.includesApp "shop" = true) :
    selected config shopTree "project" = .ok [shopFiles] := by
  have packages : Inventory.packages shopTree ["project"] = ["shop"] := by
    rw [Inventory.packages, FileTree.namesBelow, FileTree.below_of_sorted (by decide +kernel)]
    decide +kernel
  have sources : Inventory.sourceFiles shopTree ["project", "shop"] "project/shop" =
      ["project/shop/__init__.py", "project/shop/models.py"] := by
    rw [Inventory.sourceFiles, FileTree.below_of_sorted (by decide +kernel)]
    decide +kernel
  have joined : Path.join "project" "shop" = "project/shop" := by decide +kernel
  have chosen : chosenPackages config shopTree ["project"] = ["shop"] := by
    simp [chosenPackages, packages, included]
  rw [(selected_eq shop_look).2 (by simp [chosen]), chosen]
  simp [Inventory.filesOf, joined, sources, shopFiles]

private theorem shop_left (included : config.includesApp "shop" = true)
    (real : config.dryRun = false) :
    left config shopTree "project" = (Saved.emitAll false { tree := shopTree }
      (emissions config .all (findings config none shopTree 0 [shopFiles]).apps)).tree := by
  rw [left, run_ok (shop_selected included), real]

/-- With the outputs beside the project the run over the shop is repeated. -/
theorem shop_run_repeated : shopTree.Proper ∧
    Repeats (run {} none .all shopTree "project")
      (run {} none .all (left {} shopTree "project") "project") := by
  have proper : shopTree.Proper := by decide +kernel
  have chosen : selected {} shopTree "project" = .ok [shopFiles] := shop_selected rfl
  have manageable : Saved.Manageable shopTree (emitted {} none .all shopTree "project") := by
    right
    rw [emitted, chosen]
    decide +kernel
  have settings : (left {} shopTree "project").locate (settingsPath {}) =
      .ok ["docs", "api", "conf.py"] := by
    rw [shop_left rfl rfl]
    decide +kernel
  have kept : KeepsSources {} shopTree "project" := by
    refine keepsSources_of_apart proper fun apps selected files member path listed => ?_
    cases chosen.symm.trans selected
    cases List.mem_singleton.mp member
    have role : App.roleFiles shopFiles = ["project/shop/models.py"] := by decide +kernel
    cases List.mem_singleton.mp (role ▸ listed)
    intro place located there
    rw [settings] at there
    cases there
    exact absurd located (by decide +kernel)
  refine ⟨proper, (second_run_repeats_iff proper (fun _ => manageable) kept).mpr ?_⟩
  rintro ⟨_, _, _, _, place, look, _, _, _, located, _⟩
  cases shop_look.symm.trans look
  rw [settings] at located
  simp at located

/-- With the documentation inside of the shop the second run counts its settings
as a source of the shop. -/
theorem shop_settings_counted :
    let config : Config := { output := { sphinxDir := "project/shop/docs" } }
    shopTree.Proper ∧
      (run config none .all (left config shopTree "project") "project").statistics ≠
        (run config none .all shopTree "project").statistics := by
  intro config
  have proper : shopTree.Proper := by decide +kernel
  have chosen : selected config shopTree "project" = .ok [shopFiles] := shop_selected rfl
  have located : (left config shopTree "project").locate (settingsPath config) =
      .ok ["project", "shop", "docs", "conf.py"] := by
    rw [shop_left rfl rfl]
    decide +kernel
  have held : (left config shopTree "project").node? ["project", "shop", "docs", "conf.py"] =
      some (.file (.text (Sphinx.settingsPage config))) := by
    rw [shop_left rfl rfl]
    decide +kernel
  exact ⟨proper, statistics_ne_of_adds proper ⟨_, chosen, _, List.mem_singleton_self _,
    ["project"], shop_look, ["docs", "conf.py"], by decide +kernel, by decide +kernel, located,
    by decide +kernel, _, held⟩⟩

end Generation
end ApiScribe
