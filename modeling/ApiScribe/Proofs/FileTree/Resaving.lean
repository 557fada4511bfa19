import ApiScribe.Proofs.FileTree.Changes

/-! Saving again what has been saved. Whatever a run saved later on, the
directories that a file needed are still there and a file still stands in its
place, so it is saved in the same place again; and what kept a file from being
saved still stands there too. A second run over the same emissions therefore
saves and reports the same and leaves every file as the first one did. -/
namespace ApiScribe

namespace FileTree
variable {tree saved later : FileTree} {path parent text : String} {error : SaveError}

private theorem makeDirectories_again {made : FileTree} (regular : Path.Regular path)
    (ran : tree.makeDirectories path = (made, none)) (kept : made.KeepsKinds later) :
    later.makeDirectories path = (later, none) := by
  obtain ⟨_, there⟩ := makeDirectories_gains tree regular
  rw [ran] at there
  rcases there rfl with rfl | there
  · rfl
  · exact makeDirectories_of_isDirectory regular (kept.isDirectory regular there)

private theorem save_eq {made : FileTree} (found : Path.parent? path = some parent)
    (parented : tree.makeDirectories parent = (made, none)) :
    tree.save path text =
      match made.write path (.text text) with
      | .error cause => (made, some (.file path cause))
      | .ok saved => (saved, none) := by
  cases written : made.write path (.text text) <;>
    simp only [save, found, parented, Option.map_none, written]

/-- What was saved is saved in its place again. -/
theorem save_again (closed : Path.Closed path) (ran : tree.save path text = (saved, none))
    (kept : saved.KeepsKinds later) :
    ∃ place, saved.node? place = some (.file (.text text)) ∧ place ≠ [] ∧
      (∀ other, other ≠ place → ∀ node, tree.node? other = some node →
        saved.node? other = some node) ∧
      later.save path text = (later.put place (.file (.text text)), none) := by
  obtain ⟨parent, _, _, found, _, _, _, regular⟩ := steps_closed closed
  have saves := save_saves tree text found
  rw [ran] at saves
  cases saves with
  | @saved made _ parented wrote =>
    obtain ⟨gains, _⟩ := makeDirectories_gains tree regular
    rw [parented] at gains
    obtain ⟨ends, place, located, free, rfl⟩ := write_cases wrote
    have inside : place ≠ [] := by
      rintro rfl
      exact free rfl
    have filed := node?_put made place (.file (.text text)) inside
    refine ⟨place, filed, inside, fun other apart node held => ?_, ?_⟩
    · rw [node?_put_of_ne _ _ apart]
      exact gains.extends other node held
    · have before := ((KeepsKinds.refl made).put_file (.text text) free).trans kept
      obtain ⟨content, stands⟩ := kept.file filed
      rw [save_eq found (makeDirectories_again regular parented before)]
      simp only [write, ends, Bool.false_eq_true, if_false,
        locate_kept before.keepsDirectories located, stands]

/-- What could not be saved cannot be saved again, for the same reason. -/
theorem save_fails_again {made : FileTree} (proper : Proper tree) (closed : Path.Closed path)
    (straight : ".." ∉ steps path) (ran : tree.save path text = (made, some error))
    (kept : made.KeepsKinds later) : later.save path text = (later, some error) := by
  obtain ⟨parent, dots, last, found, split, each, _, regular⟩ := steps_closed closed
  rw [split] at straight
  have saves := save_saves tree text found
  rw [ran] at saves
  cases saves with
  | unmade failed =>
    have straightAbove : ".." ∉ steps parent := fun member =>
      straight (List.mem_append_left _ member)
    obtain ⟨rfl, blocked⟩ := proper.makeDirectories_failed regular straightAbove failed
    have again := (blocked.kept kept).makeDirectories regular
    simp only [save, found, again, Option.map_some]
  | unwritten parented failed =>
    obtain ⟨_, there⟩ := makeDirectories_gains tree regular
    rw [parented] at there
    obtain ⟨place, followed, directory⟩ := directory_located regular (there rfl)
    have straightLast : last ≠ ".." := by
      rintro rfl
      exact straight (by simp)
    have located := locate_below closed split each straightLast followed directory
    rw [save_eq found (makeDirectories_again regular parented kept)]
    rw [write, closed_ends closed] at failed ⊢
    simp only [Bool.false_eq_true, if_false, located,
      locate_kept kept.keepsDirectories located] at failed ⊢
    -- The path leads somewhere, so only a directory in its place can be in the way.
    split at failed
    · next held =>
      cases failed
      rw [kept.directory held]
    · cases failed

end FileTree

namespace Saved
open FileTree (KeepsKinds Proper)

variable {saved first second : Saved} {emission : Emission} {emissions : List Emission}
  {final : FileTree} {path text : String} {error : SaveError}

/-- What a second run has come to at the emission that the first run had come to,
where the second one began with what the first one left. -/
structure Retraces (final : FileTree) (first second : Saved) : Prop where
  written : second.written = first.written
  errors : second.errors = first.errors
  kinds : final.KeepsKinds second.tree ∧ second.tree.KeepsKinds final
  /-- A place holds what it holds in the end, or what the first run had put there. -/
  nodes : ∀ place, second.tree.node? place = final.node? place ∨
    second.tree.node? place = first.tree.node? place

/-- Where the second run holds what the first one held, it goes on to do so. -/
theorem Retraces.nodes_kept {after : FileTree} (retraces : Retraces final first second)
    (place : Place)
    (kept : ∀ node, first.tree.node? place = some node → after.node? place = some node) :
    second.tree.node? place = final.node? place ∨ second.tree.node? place = after.node? place := by
  rcases retraces.nodes place with same | same
  · exact .inl same
  · cases held : first.tree.node? place with
    | some node => exact .inr (by rw [same, held, kept node held])
    | none =>
      rw [held] at same
      left
      cases there : final.node? place with
      | none => exact same
      | some node =>
        obtain ⟨other, again, _⟩ := retraces.kinds.1 place node there
        rw [same] at again
        cases again

private theorem Retraces.emit_saved {made : FileTree} (retraces : Retraces final first second)
    (closed : Path.Closed path) (ran : first.tree.save path text = (made, none))
    (later : made.KeepsKinds final) :
    Retraces final (Saved.emit false first (.file path text))
      (Saved.emit false second (.file path text)) := by
  obtain ⟨place, filed, inside, others, again⟩ :=
    FileTree.save_again closed ran (later.trans retraces.kinds.1)
  obtain ⟨content, stands⟩ := later.file filed
  obtain ⟨written, free⟩ := retraces.kinds.1.file stands
  simp only [Saved.emit, ran, again, Bool.false_eq_true, if_false]
  refine ⟨by simp [retraces.written], retraces.errors, ⟨?_, ?_⟩, fun other => ?_⟩
  · exact retraces.kinds.1.put_file _ (by simp [free])
  · exact retraces.kinds.2.of_put inside stands _
  · by_cases here : other = place
    · right
      rw [here, FileTree.node?_put _ _ _ inside, filed]
    · rw [FileTree.node?_put_of_ne _ _ here]
      exact retraces.nodes_kept other (others other here)

private theorem Retraces.emit_failed {made : FileTree} (retraces : Retraces final first second)
    (proper : first.tree.Proper) (closed : Path.Closed path)
    (straight : ".." ∉ FileTree.steps path)
    (ran : first.tree.save path text = (made, some error)) (later : made.KeepsKinds final) :
    Retraces final (Saved.emit false first (.file path text))
      (Saved.emit false second (.file path text)) := by
  have again := FileTree.save_fails_again proper closed straight ran
    (later.trans retraces.kinds.1)
  simp only [Saved.emit, ran, again, Bool.false_eq_true, if_false]
  refine ⟨retraces.written, by simp [retraces.errors], retraces.kinds, fun other => ?_⟩
  refine retraces.nodes_kept other fun node held => ?_
  obtain ⟨_, more, ⟨_, failed⟩ | ⟨_, _, succeeded⟩⟩ := first.tree.save_cases path text
  · rw [ran] at failed
    cases failed
    exact more other node held
  · rw [ran] at succeeded
    cases succeeded

private theorem Retraces.emit (retraces : Retraces final first second) (proper : first.tree.Proper)
    (closed : ∀ path ∈ emission.path?, Path.Closed path)
    (saves : (∀ path text, emission = .file path text → (first.tree.save path text).2 = none) ∨
      ∀ path ∈ emission.path?, ".." ∉ FileTree.steps path)
    (later : (Saved.emit false first emission).tree.KeepsKinds final) :
    Retraces final (Saved.emit false first emission) (Saved.emit false second emission) := by
  cases emission with
  | problem path problem =>
    exact ⟨retraces.written, by simp [Saved.emit, retraces.errors], retraces.kinds, retraces.nodes⟩
  | file path text =>
    cases ran : first.tree.save path text with
    | mk made failed =>
      cases failed with
      | none =>
        have kept : made.KeepsKinds final := by simpa [Saved.emit, ran] using later
        exact retraces.emit_saved (closed path rfl) ran kept
      | some error =>
        have kept : made.KeepsKinds final := by simpa [Saved.emit, ran] using later
        have straight : ".." ∉ FileTree.steps path := by
          rcases saves with succeeds | straight
          · have saved := succeeds path text rfl
            rw [ran] at saved
            cases saved
          · exact straight path rfl
        exact retraces.emit_failed proper (closed path rfl) straight ran kept

/-- What keeps a file from being saved keeps it a second time too: there is
nothing of the kind, or no path goes up again by double dots. -/
def Manageable (tree : FileTree) (emissions : List Emission) : Prop :=
  AllSave tree emissions ∨ ∀ path ∈ filePaths emissions, ".." ∉ FileTree.steps path

private theorem Manageable.head (manageable : Manageable saved.tree (emission :: emissions)) :
    (∀ path text, emission = .file path text → (saved.tree.save path text).2 = none) ∨
      ∀ path ∈ emission.path?, ".." ∉ FileTree.steps path := by
  refine manageable.imp ?_ fun straight path named => ?_
  · rintro saves path text rfl
    exact saves.1
  · exact straight path (filePaths_head named)

private theorem Manageable.tail (manageable : Manageable saved.tree (emission :: emissions)) :
    Manageable (Saved.emit false saved emission).tree emissions := by
  refine manageable.imp (fun saves => ?_) fun straight path named =>
    straight path (filePaths_tail named)
  cases emission with
  | problem path problem => exact saves
  | file path text =>
    obtain ⟨here, below⟩ := saves
    cases ran : saved.tree.save path text with
    | mk tree failed =>
      rw [ran] at below
      cases failed <;> simpa [Saved.emit, ran] using below

private theorem Retraces.emitAll (retraces : Retraces final first second)
    (proper : first.tree.Proper) (addressed : Addressed emissions)
    (manageable : Manageable first.tree emissions)
    (ends : (Saved.emitAll false first emissions).tree = final) :
    Retraces final (Saved.emitAll false first emissions)
      (Saved.emitAll false second emissions) := by
  induction emissions generalizing first second with
  | nil => exact retraces
  | cons emission rest ih =>
    rw [emitAll_cons] at ends ⊢
    rw [emitAll_cons]
    have closed : ∀ path ∈ emission.path?, Path.Closed path := fun path named =>
      addressed path (filePaths_head named)
    have later := emitAll_keepsKinds (Saved.emit false first emission) rest
    rw [ends] at later
    exact ih (retraces.emit proper closed manageable.head later) (emit_proper proper closed)
      addressed.tail manageable.tail ends

/-- A second run that begins with what the first one left saves and reports the
same, and leaves everything as it was. -/
theorem emitAll_again {tree : FileTree} (proper : tree.Proper) (addressed : Addressed emissions)
    (manageable : Manageable tree emissions) :
    let ended := emitAll false { tree } emissions
    let again := emitAll false { tree := ended.tree } emissions
    again.written = ended.written ∧ again.errors = ended.errors ∧
      ∀ place, again.tree.node? place = ended.tree.node? place := by
  intro ended again
  have start : Retraces ended.tree { tree } { tree := ended.tree } :=
    ⟨rfl, rfl, ⟨.refl _, .refl _⟩, fun _ => .inl rfl⟩
  have retraces : Retraces ended.tree ended again := start.emitAll proper addressed manageable rfl
  exact ⟨retraces.written, retraces.errors, fun place => (retraces.nodes place).elim id id⟩

end Saved
end ApiScribe
