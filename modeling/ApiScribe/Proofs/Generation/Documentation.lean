import ApiScribe.Proofs.Generation.DryRun
import ApiScribe.Proofs.TypeScript.Files

/-! Documentation comes before types. A run with all outputs saves the pages that a run
with the documentation alone saves, and then the declaration files. Wherever these go
and whatever becomes of them, none of them is called like a page, so the pages stay. -/
namespace ApiScribe

namespace FileTree

/-- A file is found under a name that ends as the file does, also where the rest of its
name is taken for directories. -/
theorem lastName?_join_ending (directory stem ending : String) {c : Char}
    (plain : '/' ∉ ending.toList) (long : 2 < ending.toList.length)
    (last : ending.toList.getLast? = some c) :
    ∃ name, lastName? (Path.join directory (stem ++ ending)) = some name ∧
      name.toList.getLast? = some c := by
  have inside : ending.toList <:+ (Path.join directory (stem ++ ending)).toList := by
    have ends : ending.toList <:+ (stem ++ ending).toList := by
      rw [String.toList_append]
      exact List.suffix_append _ _
    rcases join_ending directory (stem ++ ending) with whole | ⟨front, whole⟩
    · rwa [whole]
    · rw [whole]
      exact ends.trans ((List.suffix_cons _ _).trans (List.suffix_append _ _))
  obtain ⟨name, named, front, whole⟩ := lastName?_ending plain long inside
  refine ⟨name, named, ?_⟩
  rw [← whole, List.getLast?_append, last]
  rfl

end FileTree

/-- What is emitted first is saved and reported first, and it stays if nothing that
follows is called like it. -/
theorem Saved.emitAll_begins (dryRun : Bool) (tree : FileTree) {first second : List Emission}
    (apart : ∀ path ∈ filePaths first, ∀ other ∈ filePaths second, FileTree.Apart path other) :
    let part := emitAll dryRun { tree } first
    let whole := emitAll dryRun { tree } (first ++ second)
    part.written <+: whole.written ∧ part.errors <+: whole.errors ∧
      ∀ path ∈ part.written, ∃ text,
        part.tree.HasFile path (.text text) ∧ whole.tree.HasFile path (.text text) := by
  intro part whole
  have continued : whole = emitAll dryRun part second := emitAll_append _ _ first second
  have backed : part.Backed := Backed.emitAll (fun _ listed => absurd listed List.not_mem_nil) _ _
  obtain ⟨added, errors, _⟩ := emitAll_errors dryRun part second
  rw [continued, errors]
  refine ⟨written_kept _ _ _, List.prefix_append _ _, fun path listed => ?_⟩
  obtain ⟨text, held⟩ := backed path listed
  have emitted : path ∈ filePaths first :=
    (emitAll_written listed).resolve_left List.not_mem_nil
  exact ⟨text, held, emitAll_keeps held (apart path emitted)⟩

/-- The documentation is an index, a page for each application and the settings of the
builder. -/
theorem Sphinx.mem_filePaths {config : Config} {apps : List App} {path : String} :
    path ∈ Saved.filePaths (emissions config apps) ↔
      path = Path.join config.output.sphinxDir "index.rst" ∨
        (∃ app ∈ apps, path =
          Path.join (Path.join config.output.sphinxDir "apps") (app.name ++ ".rst")) ∨
        path = Path.join config.output.sphinxDir "conf.py" := by
  simp only [Saved.filePaths, emissions, Emission.path?, List.cons_append, List.filterMap_cons,
    List.filterMap_append, List.filterMap_map, List.filterMap_nil, Function.comp_def,
    List.filterMap_eq_map', List.mem_cons, List.mem_append, List.mem_map, List.not_mem_nil,
    or_false, eq_comm]

namespace Generation
open FileTree (Apart lastName?)
open Saved (filePaths)

variable (config : Config) (client : Option Client) (tree : FileTree) (root : String)

private theorem page_name (apps : List App) :
    ∀ path ∈ filePaths (Sphinx.emissions config apps),
      ∃ name c, lastName? path = some name ∧ name.toList.getLast? = some c ∧ c ≠ 's' := by
  intro path listed
  rcases Sphinx.mem_filePaths.mp listed with rfl | ⟨app, _, rfl⟩ | rfl
  · obtain ⟨name, last, ends⟩ := FileTree.lastName?_join_ending config.output.sphinxDir
      "index" ".rst" (by decide) (by decide) rfl
    exact ⟨name, 't', last, ends, by decide⟩
  · obtain ⟨name, last, ends⟩ := FileTree.lastName?_join_ending
      (Path.join config.output.sphinxDir "apps") app.name ".rst" (by decide) (by decide) rfl
    exact ⟨name, 't', last, ends, by decide⟩
  · obtain ⟨name, last, ends⟩ := FileTree.lastName?_join_ending config.output.sphinxDir
      "conf" ".py" (by decide) (by decide) rfl
    exact ⟨name, 'y', last, ends, by decide⟩

private theorem declarations_name (modules : List TypeScript.Module) :
    ∀ path ∈ filePaths (TypeScript.emissions config modules),
      ∃ name, lastName? path = some name ∧ name.toList.getLast? = some 's' := by
  intro path listed
  rw [TypeScript.filePaths_emissions] at listed
  obtain ⟨module, _, rfl⟩ := List.mem_map.mp listed
  exact FileTree.lastName?_join_ending _ module ".d.ts" (by decide) (by decide) rfl

/-- No declaration file is called like a page, whatever applications are called. -/
theorem pages_apart (apps : List App) (modules : List TypeScript.Module) :
    ∀ page ∈ filePaths (Sphinx.emissions config apps),
      ∀ declarations ∈ filePaths (TypeScript.emissions config modules),
        Apart page declarations := by
  intro page pageListed declarations listed
  obtain ⟨name, c, named, last, other⟩ := page_name config apps page pageListed
  obtain ⟨otherName, otherNamed, otherLast⟩ := declarations_name config modules _ listed
  refine ⟨name, named, otherName, otherNamed, ?_⟩
  rintro rfl
  exact other (Option.some.inj (last.symm.trans otherLast))

private theorem emissions_sphinxOnly (apps : List App) :
    emissions config .sphinxOnly apps = Sphinx.emissions config apps := List.append_nil _

theorem emissions_all (apps : List App) : emissions config .all apps =
    Sphinx.emissions config apps ++ TypeScript.emissions config (TypeScript.modulesOf apps) := rfl

/-- What a run with the documentation alone leads to is the first part of what another
run leads to, and no page is changed. -/
structure Begins (docs whole : Generation) : Prop where
  written : docs.written <+: whole.written
  errors : docs.errors <+: whole.errors
  pages : ∀ path ∈ docs.written, ∃ text,
    docs.tree.HasFile path (.text text) ∧ whole.tree.HasFile path (.text text)
  project : whole.project = docs.project
  warnings : whole.warnings = docs.warnings

/-- A run with all outputs begins as a run with the documentation alone, and the types do
no harm to what it wrote, wherever they go and whether or not they can be saved. -/
theorem documentation_outlasts_types :
    Begins (run config client .sphinxOnly tree root) (run config client .all tree root) := by
  cases chosen : selected config tree root with
  | error error =>
    rw [run_stopped chosen, run_stopped chosen]
    exact ⟨List.prefix_rfl, List.prefix_rfl,
      fun path listed => absurd listed List.not_mem_nil, rfl, rfl⟩
  | ok apps =>
    simp only [run_ok chosen, emissions_sphinxOnly, emissions_all]
    obtain ⟨written, errors, pages⟩ := Saved.emitAll_begins config.dryRun tree
      (pages_apart config (findings config client tree 0 apps).apps _)
    exact ⟨written, errors, pages, rfl, rfl⟩

end Generation
end ApiScribe
