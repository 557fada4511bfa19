import ApiScribe.Generation
import ApiScribe.Proofs.FileTree.Saving

/-! A dry run tells what a run would do. Nothing before the saving of a file
asks whether the run is a dry one, so both go through the same emissions; the
run that saves reports the same problems, and one error more for every file
that cannot be saved. -/
namespace ApiScribe

namespace Saved

private theorem emit_dry (saved : Saved) (emission : Emission) :
    (emit true saved emission).tree = saved.tree ∧
      (emit true saved emission).written = saved.written := by
  cases emission <;> exact ⟨rfl, rfl⟩

theorem emitAll_dry (saved : Saved) (emissions : List Emission) :
    (emitAll true saved emissions).tree = saved.tree ∧
      (emitAll true saved emissions).written = saved.written := by
  induction emissions generalizing saved with
  | nil => exact ⟨rfl, rfl⟩
  | cons first rest ih =>
    obtain ⟨sameTree, sameWritten⟩ := emit_dry saved first
    obtain ⟨treeKept, writtenKept⟩ := ih (emit true saved first)
    exact ⟨treeKept.trans sameTree, writtenKept.trans sameWritten⟩

/-- A run that saves reports nothing but problems exactly when every file can be
saved. -/
theorem emitAll_errors_iff (saved : Saved) (emissions : List Emission) :
    (emitAll false saved emissions).errors = saved.errors ++ problemErrors emissions ↔
      AllSave saved.tree emissions := by
  induction emissions generalizing saved with
  | nil => simp [emitAll, problemErrors, AllSave]
  | cons first rest ih =>
    rw [emitAll_cons]
    cases first with
    | problem path problem =>
      have here := ih (emit false saved (.problem path problem))
      simpa [emit, problemErrors, AllSave] using here
    | file path text =>
      have below := ih (emit false saved (.file path text))
      have passed : problemErrors (.file path text :: rest) = problemErrors rest := rfl
      rw [AllSave, passed]
      cases ran : saved.tree.save path text with
      | mk tree failed =>
        cases failed with
        | none => simpa [emit, ran] using below
        | some error =>
          -- The error of this file comes on top of all the problems that follow.
          obtain ⟨added, whole, reported, _⟩ :=
            emitAll_errors false (emit false saved (.file path text)) rest
          refine iff_of_false (fun same => ?_) (by simp)
          rw [whole] at same
          have sizes := congrArg List.length same
          have fewer := reported.length_le
          simp only [emit, ran, Bool.false_eq_true, if_false, List.length_append,
            List.length_singleton] at sizes
          omega

end Saved

namespace Generation

/-- What a run attempts to save and the problems that it finds on the way. -/
def emitted (config : Config) (client : Option Client) (outputs : Outputs) (tree : FileTree)
    (root : String) : List Emission :=
  match selected config tree root with
  | .error _ => []
  | .ok apps => emissions config outputs (findings config client tree 0 apps).apps

/-- The counts of a run that do not depend on what it saved. -/
def analysisStatistics (result : Generation) : List (String × Nat) :=
  result.statistics.filter fun count => count.1 != "generated_files"

/-- What a dry run tells about the run that saves, given the tree before both. -/
structure Foretells (tree : FileTree) (dry real : Generation) : Prop where
  /-- Nothing is saved. -/
  tree : dry.tree = tree
  written : dry.written = []
  /-- The same is found out about the project. -/
  project : dry.project = real.project
  warnings : dry.warnings = real.warnings
  prompts : dry.prompts = real.prompts
  statistics : dry.analysisStatistics = real.analysisStatistics
  /-- The same problems are reported, between those of files that cannot be saved. -/
  errors : dry.errors.Sublist real.errors

variable {config : Config} {client : Option Client} {outputs : Outputs} {tree : FileTree}
  {root : String}

/-- A run that selects applications saves what it emits for them. -/
theorem run_ok (chosen : selected config tree root = .ok apps) :
    run config client outputs tree root =
      let found := findings config client tree 0 apps
      let saved := Saved.emitAll config.dryRun { tree } (emissions config outputs found.apps)
      { tree := saved.tree
        written := saved.written
        errors := saved.errors
        warnings := found.warnings
        prompts := found.prompts
        project :=
          some { name := config.projectName, version := config.version, apps := found.apps }
        outputs } := by
  rw [run, chosen]

theorem run_stopped (stopped : selected config tree root = .error error) :
    run config client outputs tree root = { tree, errors := [error], outputs } := by
  rw [run, stopped]

variable (config client outputs tree root)

/-- The run as a dry one, or as one that saves. -/
def runAs (dryRun : Bool) : Generation := run { config with dryRun } client outputs tree root

private theorem findings_dryRun (dryRun : Bool) (asked : Nat) (files : List AppFiles) :
    findings { config with dryRun } client tree asked files =
      findings config client tree asked files := by
  induction files generalizing asked with
  | nil => rfl
  | cons first rest ih =>
    rw [findings, findings]
    simp only [ih]
    rfl

private theorem moduleEmissions_dryRun (dryRun : Bool) (owners : TypeScript.Owners)
    (modules : List TypeScript.Module) :
    TypeScript.moduleEmissions { config with dryRun } owners modules =
      TypeScript.moduleEmissions config owners modules := by
  induction modules generalizing owners with
  | nil => rfl
  | cons module rest ih =>
    rw [TypeScript.moduleEmissions, TypeScript.moduleEmissions]
    simp only [ih]
    rfl

private theorem emissions_dryRun (dryRun : Bool) (apps : List App) :
    emissions { config with dryRun } outputs apps = emissions config outputs apps := by
  simp only [emissions, TypeScript.emissions, moduleEmissions_dryRun]
  rfl

/-- A run is a dry one in what it saves and reports alone. -/
theorem runAs_ok (dryRun : Bool) (chosen : selected config tree root = .ok apps) :
    runAs config client outputs tree root dryRun =
      let found := findings config client tree 0 apps
      let saved := Saved.emitAll dryRun { tree } (emissions config outputs found.apps)
      { tree := saved.tree
        written := saved.written
        errors := saved.errors
        warnings := found.warnings
        prompts := found.prompts
        project :=
          some { name := config.projectName, version := config.version, apps := found.apps }
        outputs } := by
  have selected : selected { config with dryRun } tree root = .ok apps := chosen
  rw [runAs, run_ok selected]
  simp only [findings_dryRun, emissions_dryRun]

private theorem runAs_stopped (dryRun : Bool) (stopped : selected config tree root = .error error) :
    runAs config client outputs tree root dryRun = { tree, errors := [error], outputs } := by
  exact run_stopped stopped

/-- A dry run is the run without its writes: it changes nothing and finds out the
same, and its errors are those of the run unless a file cannot be saved. -/
theorem dry_run_foretells :
    Foretells tree (runAs config client outputs tree root true)
        (runAs config client outputs tree root false) ∧
      ((runAs config client outputs tree root true).errors =
          (runAs config client outputs tree root false).errors ↔
        Saved.AllSave tree (emitted config client outputs tree root)) := by
  cases chosen : selected config tree root with
  | error error =>
    simp only [runAs_stopped config client outputs tree root _ chosen, emitted, chosen,
      Saved.AllSave]
    exact ⟨⟨rfl, rfl, rfl, rfl, rfl, rfl, .refl _⟩, trivial⟩
  | ok apps =>
    simp only [runAs_ok config client outputs tree root _ chosen, emitted, chosen]
    let attempted := emissions config outputs (findings config client tree 0 apps).apps
    obtain ⟨kept, unwritten⟩ := Saved.emitAll_dry { tree } attempted
    obtain ⟨problems, dryErrors, _, onlyProblems⟩ := Saved.emitAll_errors true { tree } attempted
    obtain ⟨added, realErrors, reported, _⟩ := Saved.emitAll_errors false { tree } attempted
    have complete := Saved.emitAll_errors_iff { tree } attempted
    rw [onlyProblems rfl] at dryErrors
    refine ⟨⟨kept, unwritten, rfl, rfl, rfl, ?_, ?_⟩, ?_⟩
    · simp [analysisStatistics, statistics, List.filter_append]
    · rw [dryErrors, realErrors]
      exact reported.append_left _
    · rw [dryErrors, eq_comm]
      exact complete

end Generation
end ApiScribe
