import ApiScribe.Proofs.FileTree.Proper

/-! What saving changes. A place is left alone, it becomes a directory where
nothing stood, or a saved file stands there; so a run changes no file but those
that its emissions name. -/
namespace ApiScribe

namespace FileTree
variable {tree before between after : FileTree} {place : Place} {path parent : String}
  {paths : List String}

/-- Two trees differ in directories that are new and in files at some paths. -/
def ChangesOnly (paths : List String) (before after : FileTree) : Prop :=
  ∀ place, after.node? place = before.node? place ∨
    (before.node? place = none ∧ after.node? place = some .directory) ∨
    (before.node? place ≠ some .directory ∧ (∃ content, after.node? place = some (.file content)) ∧
      ∃ path ∈ paths, after.locate path = .ok place)

theorem ChangesOnly.refl (tree : FileTree) : ChangesOnly paths tree tree := fun _ => .inl rfl

/-- What two steps change is what both change together, as long as the second keeps the
directories, which the paths of the first lead through. -/
private theorem ChangesOnly.trans (first : ChangesOnly paths before between)
    (second : ChangesOnly paths between after) (kept : between.KeepsDirectories after) :
    ChangesOnly paths before after := by
  intro place
  rcases second place with same | ⟨none, gained⟩ | ⟨free, written, named⟩
  · rw [same]
    rcases first place with same | gained | ⟨free, written, path, member, located⟩
    · exact .inl same
    · exact .inr (.inl gained)
    · exact .inr (.inr ⟨free, written, path, member, locate_kept kept located⟩)
  · rcases first place with same | ⟨_, already⟩ | ⟨_, ⟨content, filed⟩, _⟩
    · exact .inr (.inl ⟨same ▸ none, gained⟩)
    · rw [none] at already
      cases already
    · rw [none] at filed
      cases filed
  · rcases first place with same | ⟨_, already⟩ | ⟨freeBefore, _⟩
    · exact .inr (.inr ⟨same ▸ free, written, named⟩)
    · exact absurd already free
    · exact .inr (.inr ⟨freeBefore, written, named⟩)

private theorem GainsDirectories.changesOnly (gains : before.GainsDirectories after) :
    ChangesOnly paths before after := fun place => (gains place).imp id .inl

/-- Writing changes the place that the path leads to. -/
private theorem write_changesOnly (member : path ∈ paths)
    (ran : before.write path content = .ok after) :
    ChangesOnly paths before after := by
  obtain ⟨_, found, located, free, rfl⟩ := write_cases ran
  have inside : found ≠ [] := by
    rintro rfl
    exact free rfl
  intro place
  by_cases here : place = found
  · subst here
    exact .inr (.inr ⟨free, ⟨content, node?_put _ _ _ inside⟩, path, member,
      locate_kept (put_keepsDirectories free) located⟩)
  · exact .inl (node?_put_of_ne _ _ here)

/-- Saving makes the directories above first, and these are new. -/
private theorem save_changesOnly (closed : Path.Closed path) (member : path ∈ paths)
    (text : String) :
    ChangesOnly paths tree (tree.save path text).1 := by
  obtain ⟨parent, _, _, found, _, _, _, regular⟩ := steps_closed closed
  have saves := save_saves tree text found
  obtain ⟨gains, _⟩ := makeDirectories_gains tree regular
  generalize tree.save path text = result at saves ⊢
  cases saves with
  | unmade failed =>
    rw [failed] at gains
    exact gains.changesOnly
  | unwritten parented =>
    rw [parented] at gains
    exact gains.changesOnly
  | saved parented ran =>
    rw [parented] at gains
    obtain ⟨_, _, _, free, same⟩ := write_cases ran
    exact gains.changesOnly.trans (write_changesOnly member ran)
      (same ▸ put_keepsDirectories free)

private theorem save_keepsKinds (tree : FileTree) (path text : String) :
    tree.KeepsKinds (tree.save path text).1 := by
  obtain ⟨made, more, ⟨error, failed⟩ | ⟨saved, wrote, succeeded⟩⟩ := save_cases tree path text
  · rw [failed]
    exact more.keepsKinds
  · rw [succeeded]
    obtain ⟨_, place, _, free, rfl⟩ := write_cases wrote
    exact more.keepsKinds.put_file (.text text) free

end FileTree

namespace Saved
open FileTree (ChangesOnly)

variable {saved : Saved} {emission : Emission} {emissions : List Emission} {paths : List String}

/-- What a tree is after an attempt to save one file or none. -/
theorem emit_tree (saved : Saved) (emission : Emission) :
    (emit false saved emission).tree = saved.tree ∨ ∃ path text, emission = .file path text ∧
      (emit false saved emission).tree = (saved.tree.save path text).1 := by
  cases emission with
  | problem path problem => exact .inl rfl
  | file path text =>
    refine .inr ⟨path, text, rfl, ?_⟩
    cases ran : saved.tree.save path text with
    | mk tree failed => cases failed <;> simp [emit, ran]

private theorem emit_keepsKinds (saved : Saved) (emission : Emission) :
    saved.tree.KeepsKinds (emit false saved emission).tree := by
  rcases emit_tree saved emission with same | ⟨path, text, _, same⟩
  · rw [same]
    exact .refl _
  · rw [same]
    exact saved.tree.save_keepsKinds path text

/-- Saving never turns a directory into a file or the other way, whichever files are saved. -/
theorem emitAll_keepsKinds (saved : Saved) (emissions : List Emission) :
    saved.tree.KeepsKinds (emitAll false saved emissions).tree := by
  induction emissions generalizing saved with
  | nil => exact .refl _
  | cons emission rest ih =>
    exact (emit_keepsKinds saved emission).trans (ih (emit false saved emission))

/-- Files go to closed paths. -/
def Addressed (emissions : List Emission) : Prop :=
  ∀ path ∈ filePaths emissions, Path.Closed path

/-- The file that an emission is about counts among the files of a list it begins. -/
theorem filePaths_head (named : path ∈ emission.path?) :
    path ∈ filePaths (emission :: emissions) :=
  List.mem_filterMap.mpr ⟨emission, List.mem_cons_self, named⟩

theorem filePaths_tail (named : path ∈ filePaths emissions) :
    path ∈ filePaths (emission :: emissions) := by
  obtain ⟨other, member, here⟩ := List.mem_filterMap.mp named
  exact List.mem_filterMap.mpr ⟨other, List.mem_cons_of_mem _ member, here⟩

theorem Addressed.tail (addressed : Addressed (emission :: emissions)) : Addressed emissions :=
  fun path named => addressed path (filePaths_tail named)

/-- One file saved at a closed path leaves the tree proper. -/
theorem emit_proper (proper : saved.tree.Proper)
    (closed : ∀ path ∈ emission.path?, Path.Closed path) :
    (emit false saved emission).tree.Proper := by
  rcases emit_tree saved emission with same | ⟨path, text, rfl, same⟩
  · rw [same]
    exact proper
  · rw [same]
    exact proper.save (closed path rfl) text

/-- A whole run leaves the tree proper, since it saves at closed paths only. -/
theorem emitAll_proper (proper : saved.tree.Proper) (addressed : Addressed emissions) :
    (emitAll false saved emissions).tree.Proper := by
  induction emissions generalizing saved with
  | nil => exact proper
  | cons emission rest ih =>
    exact ih (emit_proper proper fun path named => addressed path (filePaths_head named))
      addressed.tail

/-- A run makes directories, and files at the paths it names; every other place is as it was. -/
theorem emitAll_changesOnly (addressed : Addressed emissions)
    (named : ∀ path ∈ filePaths emissions, path ∈ paths) :
    ChangesOnly paths saved.tree (emitAll false saved emissions).tree := by
  induction emissions generalizing saved with
  | nil => exact .refl _
  | cons emission rest ih =>
    have later : ChangesOnly paths (emit false saved emission).tree
        (emitAll false (emit false saved emission) rest).tree :=
      ih addressed.tail fun path member => named path (filePaths_tail member)
    have kept := (emitAll_keepsKinds (emit false saved emission) rest).keepsDirectories
    refine FileTree.ChangesOnly.trans ?_ later kept
    rcases emit_tree saved emission with same | ⟨path, text, rfl, same⟩
    · rw [same]
      exact .refl _
    · rw [same]
      exact FileTree.save_changesOnly (addressed path (filePaths_head rfl))
        (named path (filePaths_head rfl)) text

end Saved
end ApiScribe
