import ApiScribe.Proofs.FileTree.Resaving
import ApiScribe.Proofs.Generation.Documentation
import ApiScribe.Proofs.Inventory.Sources

/-! Where a run saves what it makes. It makes something for the packages that its
configuration includes, and saves every output under a name that marks no package.
Only the settings of the documentation builder are called like a source. -/
namespace ApiScribe

namespace FileTree

/-- What a name ends with is not lost to its extension. -/
theorem extension_suffix {name extension : String}
    (ends : (Path.cutName name).2 = some extension) : extension.toList <:+ name.toList := by
  rw [Path.cutName] at ends
  split at ends
  · cases ends
    rw [String.toList_ofList, ← List.reverse_prefix, List.reverse_reverse]
    exact List.takeWhile_prefix _
  · cases ends

end FileTree

namespace Generation
open FileTree (PlainName lastName?)

variable {config : Config} {tree : FileTree} {root : String} {apps : List AppFiles}

/-- Where the settings of the documentation builder go. -/
def settingsPath (config : Config) : String := Path.join config.output.sphinxDir "conf.py"

theorem findings_alone (config : Config) (tree : FileTree) (asked : Nat) (files : List AppFiles) :
    findings config none tree asked files =
      ⟨files.map fun found => keepEndpoints config (App.analyze config.extraction tree found).1,
        files.flatMap fun found => (App.analyze config.extraction tree found).2, []⟩ := by
  have unasked : Enrichment.active? config.assistant none = none := by
    rw [Enrichment.active?]
    split <;> rfl
  induction files generalizing asked with
  | nil => rfl
  | cons first rest ih => simp [findings, Enrichment.enrich, unasked, ih]

/-- The packages that take part. -/
def chosenPackages (config : Config) (tree : FileTree) (place : Place) : List String :=
  (Inventory.packages tree place).filter config.includesApp

/-- The applications that take part are the packages that the configuration includes. -/
theorem selected_eq (look : tree.look root = .ok (place, .directory)) :
    (chosenPackages config tree place = [] → ∃ error, selected config tree root = .error error) ∧
      (chosenPackages config tree place ≠ [] → selected config tree root =
        .ok ((chosenPackages config tree place).map (Inventory.filesOf tree place root))) := by
  have included : ((Inventory.packages tree place).map (Inventory.filesOf tree place root)).filter
      (fun files => config.includesApp files.name) =
        (chosenPackages config tree place).map (Inventory.filesOf tree place root) := by
    rw [List.filter_map]
    rfl
  rw [selected, Inventory.scan_eq look]
  by_cases none : Inventory.packages tree place = []
  · have empty : chosenPackages config tree place = [] := by rw [chosenPackages, none]; rfl
    rw [if_pos none]
    exact ⟨fun _ => ⟨_, rfl⟩, fun some => absurd empty some⟩
  · rw [if_neg none]
    simp only [included]
    cases chosenPackages config tree place with
    | nil => exact ⟨fun _ => ⟨_, rfl⟩, fun some => absurd rfl some⟩
    | cons first rest => exact ⟨fun empty => absurd empty (List.cons_ne_nil _ _), fun _ => rfl⟩

theorem selected_cases (chosen : selected config tree root = .ok apps) :
    ∃ place, tree.look root = .ok (place, .directory) ∧ chosenPackages config tree place ≠ [] ∧
      apps = (chosenPackages config tree place).map (Inventory.filesOf tree place root) := by
  cases look : tree.look root with
  | error cause => simp [selected, Inventory.scan, look] at chosen
  | ok found =>
    obtain ⟨place, node⟩ := found
    cases node with
    | file content => simp [selected, Inventory.scan, look] at chosen
    | directory =>
      obtain ⟨stopped, ran⟩ := selected_eq look
      by_cases none : chosenPackages config tree place = []
      · obtain ⟨error, failed⟩ := stopped none
        rw [failed] at chosen
        cases chosen
      · rw [ran none] at chosen
        cases chosen
        exact ⟨place, rfl, none, rfl⟩

theorem plain_chosen (proper : tree.Proper) (place : Place) :
    ∀ name ∈ chosenPackages config tree place, PlainName name := by
  intro name member
  obtain ⟨names, listed, first⟩ := List.mem_map.mp (List.mem_filter.mp member).1
  obtain ⟨only, rfl, _, content, held⟩ := (Inventory.mem_packageNames proper).mp listed
  exact proper.plain_of_node? held name (by simp [← first])

/-- A path that a run saves a file at, and how the file is called: not like the
file that marks a package, and like a source only if it is the one of the settings. -/
def Output (config : Config) (path : String) : Prop :=
  ∃ directory name, path = Path.join directory name ∧ PlainName name ∧
    lastName? path = some name ∧ name ≠ packageMarker ∧
    ((Path.cutName name).2 = some "py" → path = settingsPath config)

private theorem output_join {name : String} (config : Config) (directory : String)
    (plain : '/' ∉ name.toList) (long : 2 < name.length) (named : name ≠ packageMarker)
    (source : (Path.cutName name).2 = some "py" →
      Path.join directory name = settingsPath config) :
    Output config (Path.join directory name) := by
  have other (short : String) (bound : short.length ≤ 2) : name ≠ short := by
    rintro rfl
    omega
  exact ⟨directory, name, rfl,
    ⟨other "" (by decide), ⟨other "." (by decide), other ".." (by decide)⟩, plain⟩,
    FileTree.lastName?_join directory plain long, named, source⟩

/-- A name with another ending is not that of a source. -/
theorem output_of_ending (config : Config) (directory stem ending : String)
    (plain : '/' ∉ (stem ++ ending).toList) (long : 2 < ending.length)
    (last : ∃ c ∈ ending.toList.getLast?, c ≠ 'y') :
    Output config (Path.join directory (stem ++ ending)) := by
  obtain ⟨c, ends, other⟩ := last
  have lastOf : (stem ++ ending).toList.getLast? = some c := by
    rw [String.toList_append, List.getLast?_append, ends]
    rfl
  refine output_join config directory plain ?_ ?_ fun source => ?_
  · rw [String.length_append]
    omega
  · intro same
    rw [same] at lastOf
    exact other (Option.some.inj lastOf).symm
  · obtain ⟨front, whole⟩ := FileTree.extension_suffix source
    rw [← whole, List.getLast?_append] at lastOf
    exact absurd (Option.some.inj lastOf).symm other

private theorem emissions_outputs (config : Config) {apps : List App}
    (plain : ∀ app ∈ apps, '/' ∉ app.name.toList) :
    ∀ path ∈ Saved.filePaths (emissions config .all apps), Output config path := by
  intro path listed
  rw [emissions_all, Saved.filePaths_append] at listed
  rcases List.mem_append.mp listed with page | types
  · rcases Sphinx.mem_filePaths.mp page with rfl | ⟨app, inside, rfl⟩ | rfl
    · exact output_of_ending config _ "index" ".rst" (by decide) (by decide)
        ⟨'t', rfl, by decide⟩
    · refine output_of_ending config _ app.name ".rst" ?_ (by decide) ⟨'t', rfl, by decide⟩
      simpa [String.toList_append] using plain app inside
    · exact output_join config _ (by decide) (by decide) (by decide) fun _ => rfl
  · rw [TypeScript.filePaths_emissions] at types
    obtain ⟨module, member, rfl⟩ := List.mem_map.mp types
    have free : '/' ∉ module.toList := by
      refine TypeScript.mem_fileModules_plain (fun found listed => ?_) member
      obtain ⟨app, inside, rfl⟩ := List.mem_map.mp listed
      exact plain app inside
    refine output_of_ending config _ module ".d.ts" ?_ (by decide) ⟨'s', rfl, by decide⟩
    simpa [String.toList_append] using free

/-- What is emitted for selected applications goes to output files. -/
theorem emissions_selected (proper : tree.Proper) (chosen : selected config tree root = .ok apps) :
    ∀ path ∈ Saved.filePaths (emissions config .all (findings config none tree 0 apps).apps),
      Output config path := by
  apply emissions_outputs
  obtain ⟨place, _, _, rfl⟩ := selected_cases chosen
  rw [findings_alone]
  intro app member
  obtain ⟨found, listed, rfl⟩ := List.mem_map.mp member
  obtain ⟨name, inside, rfl⟩ := List.mem_map.mp listed
  exact (plain_chosen proper place name inside).whole

theorem emissions_addressed (proper : tree.Proper)
    (chosen : selected config tree root = .ok apps) :
    Saved.Addressed (emissions config .all (findings config none tree 0 apps).apps) := by
  intro path listed
  obtain ⟨directory, name, rfl, plain, _⟩ := emissions_selected proper chosen path listed
  exact FileTree.closed_join directory plain

/-- What a run with all outputs and without an assistant leaves. -/
def left (config : Config) (tree : FileTree) (root : String) : FileTree :=
  (run config none .all tree root).tree

/-- What is left by a run: the files that it saved, and directories for them. -/
theorem left_changes (proper : tree.Proper) (chosen : selected config tree root = .ok apps) :
    (left config tree root).Proper ∧ tree.KeepsKinds (left config tree root) ∧
      ∃ paths, (∀ path ∈ paths, Output config path) ∧
        FileTree.ChangesOnly paths tree (left config tree root) := by
  let attempted := emissions config .all (findings config none tree 0 apps).apps
  have addressed : Saved.Addressed attempted := emissions_addressed proper chosen
  have leaves : left config tree root = (Saved.emitAll config.dryRun { tree } attempted).tree := by
    rw [left, run_ok chosen]
  rw [leaves]
  cases config.dryRun with
  | true =>
    rw [(Saved.emitAll_dry { tree } attempted).1]
    exact ⟨proper, .refl tree, [], by simp, .refl tree⟩
  | false =>
    have start : ({ tree } : Saved).tree.Proper := proper
    exact ⟨Saved.emitAll_proper start addressed, Saved.emitAll_keepsKinds { tree } attempted,
      Saved.filePaths attempted, emissions_selected proper chosen,
      Saved.emitAll_changesOnly addressed fun path listed => listed⟩

end Generation
end ApiScribe
