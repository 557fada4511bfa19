import ApiScribe.Output

/-! Saving a file leaves the other files of a tree as they are. Where a path
leads depends on directories alone, and these stay. Paths that end in different
names never lead to one place, whatever directories stand above them, so files
with such paths are all there after a run that saved them. -/
namespace ApiScribe
open Text

namespace FileTree
variable {tree before after : FileTree} {place found : Place} {path other name : String}

/-- What is a directory in one tree is a directory in another one. -/
def KeepsDirectories (before after : FileTree) : Prop :=
  ∀ place, before.node? place = some .directory → after.node? place = some .directory

/-- Putting something anywhere but in the place of a directory keeps all directories. -/
theorem put_keepsDirectories {node : Node} (free : tree.node? place ≠ some .directory) :
    tree.KeepsDirectories (tree.put place node) := by
  intro other held
  have apart : other ≠ place := by
    rintro rfl
    exact free held
  rw [node?_put_of_ne tree node apart, held]

/-- Names that can be followed all go through directories. -/
theorem directory_of_follow (followed : tree.follow place (name :: rest) = .ok found) :
    tree.node? place = some .directory := by
  rw [follow] at followed
  cases held : tree.node? place with
  | none => simp [held] at followed
  | some node =>
    cases node with
    | directory => rfl
    | file content => simp [held] at followed

theorem follow_cons (directory : tree.node? place = some .directory) :
    tree.follow place (name :: rest) =
      if name = "." then tree.follow place rest
      else if name = ".." then tree.follow place.dropLast rest
      else tree.follow (place ++ [name]) rest := by
  rw [follow, directory]

private theorem follow_kept {names : List String} (kept : before.KeepsDirectories after)
    (followed : before.follow place names = .ok found) : after.follow place names = .ok found := by
  induction names generalizing place with
  | nil => exact followed
  | cons name rest ih =>
    have directory := directory_of_follow followed
    rw [follow_cons directory] at followed
    rw [follow_cons (kept place directory)]
    split
    · rw [if_pos ‹_›] at followed
      exact ih followed
    · rw [if_neg ‹_›] at followed
      split
      · rw [if_pos ‹_›] at followed
        exact ih followed
      · rw [if_neg ‹_›] at followed
        exact ih followed

/-- A path that led to a place leads there as long as the directories are kept. -/
theorem locate_kept (kept : before.KeepsDirectories after)
    (located : before.locate path = .ok place) : after.locate path = .ok place := by
  rw [locate] at located ⊢
  split at located
  · cases located
  · rw [if_neg ‹_›]
    exact follow_kept kept located

/-- The name that a path ends in. A dot and a double dot at its end name nothing. -/
def lastName? (path : String) : Option String :=
  (steps path).getLast?.filter fun name => name != "." && name != ".."

/-- Two paths that end in different names. -/
def Apart (path other : String) : Prop :=
  ∃ name, lastName? path = some name ∧ ∃ otherName, lastName? other = some otherName ∧
    name ≠ otherName

theorem Apart.irrefl : ¬ Apart path path := by
  rintro ⟨name, named, otherName, otherNamed, different⟩
  exact different (Option.some.inj (named.symm.trans otherNamed))

private theorem follow_last {names : List String} (plain : name ≠ "." ∧ name ≠ "..")
    (followed : tree.follow place (names ++ [name]) = .ok found) : found.getLast? = some name := by
  induction names generalizing place with
  | nil =>
    rw [List.nil_append, follow_cons (directory_of_follow followed), if_neg plain.1,
      if_neg plain.2, follow] at followed
    cases followed
    exact List.getLast?_concat
  | cons first rest ih =>
    rw [List.cons_append] at followed
    rw [follow_cons (directory_of_follow followed)] at followed
    split at followed
    · exact ih followed
    · split at followed
      · exact ih followed
      · exact ih followed

/-- A path leads to a place of its last name or nowhere. -/
theorem locate_last (named : lastName? path = some name) (located : tree.locate path = .ok place) :
    place.getLast? = some name := by
  obtain ⟨last, plain⟩ := Option.filter_eq_some_iff.mp named
  obtain ⟨names, ends⟩ := List.getLast?_eq_some_iff.mp last
  rw [locate] at located
  split at located
  · cases located
  · rw [ends] at located
    exact follow_last (by simpa using plain) located

private theorem Apart.place_ne (apart : Apart path other) (located : before.locate path = .ok place)
    (otherLocated : after.locate other = .ok found) : place ≠ found := by
  obtain ⟨name, named, otherName, otherNamed, different⟩ := apart
  rintro rfl
  have last := locate_last named located
  rw [locate_last otherNamed otherLocated] at last
  exact different (Option.some.inj last).symm

/-- A file of some content stands where a path leads. -/
def HasFile (tree : FileTree) (path : String) (content : Content) : Prop :=
  endsWith path "/" = false ∧
    ∃ place, tree.locate path = .ok place ∧ tree.node? place = some (.file content)

/-- A file that stands at a path is read there. -/
theorem HasFile.read (held : tree.HasFile path (.text text)) : tree.read path = .ok text := by
  obtain ⟨ends, place, located, file⟩ := held
  have looked : tree.look path = .ok (place, .file (.text text)) := by
    simp [look, ends, located, file]
  rw [FileTree.read, looked]

private theorem HasFile.extends (held : before.HasFile path content) (more : before.Extends after) :
    after.HasFile path content := by
  obtain ⟨ends, place, located, file⟩ := held
  exact ⟨ends, place, locate_kept (fun place => more place .directory) located,
    more place _ file⟩

/-- What writing a file does, if it succeeds. -/
theorem write_cases (ran : tree.write path content = .ok after) :
    endsWith path "/" = false ∧ ∃ place, tree.locate path = .ok place ∧
      tree.node? place ≠ some .directory ∧ after = tree.put place (.file content) := by
  rw [write] at ran
  by_cases ends : endsWith path "/" = true
  · rw [if_pos ends] at ran
    split at ran <;> cases ran
  · rw [if_neg ends] at ran
    cases located : tree.locate path with
    | error cause => simp [located] at ran
    | ok place =>
      simp only [located] at ran
      split at ran
      · cases ran
      · next free =>
        cases ran
        exact ⟨by simpa using ends, place, rfl, free, rfl⟩

private theorem write_hasFile (ran : tree.write path content = .ok after) :
    after.HasFile path content := by
  obtain ⟨ends, place, located, free, rfl⟩ := write_cases ran
  have inside : place ≠ [] := by
    rintro rfl
    exact free rfl
  exact ⟨ends, place, locate_kept (put_keepsDirectories free) located, node?_put _ _ _ inside⟩

private theorem HasFile.write (held : tree.HasFile path content) (apart : Apart path other)
    (ran : tree.write other written = .ok after) : after.HasFile path content := by
  obtain ⟨ends, place, located, file⟩ := held
  obtain ⟨_, found, otherLocated, free, rfl⟩ := write_cases ran
  refine ⟨ends, place, locate_kept (put_keepsDirectories free) located, ?_⟩
  rw [node?_put_of_ne tree _ (apart.place_ne located otherLocated), file]

/-- Saving makes directories and then writes the file or ends with an error. -/
theorem save_cases (tree : FileTree) (path text : String) :
    ∃ made, tree.Extends made ∧
      ((∃ error, tree.save path text = (made, some error)) ∨
        ∃ saved, made.write path (.text text) = .ok saved ∧
          tree.save path text = (saved, none)) := by
  cases above : Path.parent? path with
  | none =>
    refine ⟨tree, .refl tree, ?_⟩
    cases wrote : tree.write path (.text text) with
    | error cause => exact .inl ⟨.file path cause, by simp [save, above, wrote]⟩
    | ok saved => exact .inr ⟨saved, rfl, by simp [save, above, wrote]⟩
  | some parent =>
    have more := makeDirectories_extends tree parent
    cases ran : tree.makeDirectories parent with
    | mk made failed =>
      rw [ran] at more
      refine ⟨made, more, ?_⟩
      cases failed with
      | some cause => exact .inl ⟨.directory parent cause, by simp [save, above, ran]⟩
      | none =>
        cases wrote : made.write path (.text text) with
        | error cause => exact .inl ⟨.file path cause, by simp [save, above, ran, wrote]⟩
        | ok saved => exact .inr ⟨saved, rfl, by simp [save, above, ran, wrote]⟩

private theorem save_hasFile (ran : tree.save path text = (after, none)) :
    after.HasFile path (.text text) := by
  obtain ⟨made, _, ⟨error, failed⟩ | ⟨saved, wrote, succeeded⟩⟩ := save_cases tree path text
  · rw [failed] at ran
    cases ran
  · rw [succeeded] at ran
    cases ran
    exact write_hasFile wrote

/-- A file outlasts the attempt to save another one, whatever comes of it. -/
theorem HasFile.save (held : tree.HasFile path content) (apart : Apart path other)
    (text : String) : (tree.save other text).1.HasFile path content := by
  obtain ⟨made, more, ⟨error, failed⟩ | ⟨saved, wrote, succeeded⟩⟩ := save_cases tree other text
  · rw [failed]
    exact held.extends more
  · rw [succeeded]
    exact (held.extends more).write apart wrote

/-- An attempt to save leaves a text file where one was, be it with another text. -/
theorem HasFile.resaved (held : tree.HasFile path (.text old)) (other text : String) :
    ∃ now, (tree.save other text).1.HasFile path (.text now) := by
  obtain ⟨made, more, ⟨error, failed⟩ | ⟨saved, wrote, succeeded⟩⟩ := save_cases tree other text
  · rw [failed]
    exact ⟨old, held.extends more⟩
  · rw [succeeded]
    obtain ⟨ends, place, located, file⟩ := held.extends more
    obtain ⟨_, found, _, free, rfl⟩ := write_cases wrote
    have relocated : (made.put found (.file (.text text))).locate path = .ok place :=
      locate_kept (put_keepsDirectories free) located
    by_cases here : place = found
    · subst here
      have inside : place ≠ [] := by
        rintro rfl
        exact free rfl
      exact ⟨text, ends, place, relocated, node?_put _ _ _ inside⟩
    · exact ⟨old, ends, place, relocated, by rw [node?_put_of_ne _ _ here, file]⟩

end FileTree

/-- The path of an emitted file. -/
def Emission.path? : Emission → Option String
  | .file path _ => some path
  | .problem _ _ => none

namespace Saved
open FileTree (Apart HasFile)

/-- The paths of emitted files in their order. -/
def filePaths (emissions : List Emission) : List String := emissions.filterMap Emission.path?

private theorem mem_filePaths {emissions : List Emission} (listed : .file path text ∈ emissions) :
    path ∈ filePaths emissions :=
  List.mem_filterMap.mpr ⟨_, listed, rfl⟩

theorem filePaths_append (first second : List Emission) :
    filePaths (first ++ second) = filePaths first ++ filePaths second :=
  List.filterMap_append

variable {dryRun : Bool} {saved : Saved} {emissions : List Emission} {path text : String}

/-- A run reports a file as written only when it has saved it. -/
theorem emit_file (dryRun : Bool) (saved : Saved) (path text : String) :
    (emit dryRun saved (.file path text)).written = saved.written ∨
      ((emit dryRun saved (.file path text)).written = saved.written ++ [path] ∧
        (emit dryRun saved (.file path text)).tree.HasFile path (.text text)) := by
  cases dryRun with
  | true => exact .inl rfl
  | false =>
    cases ran : saved.tree.save path text with
    | mk tree failed =>
      cases failed with
      | some error => exact .inl (by simp [emit, ran])
      | none => exact .inr (by simpa [emit, ran] using FileTree.save_hasFile ran)

private theorem emit_keeps (held : saved.tree.HasFile path content)
    (apart : ∀ other ∈ emission.path?, Apart path other) :
    (emit dryRun saved emission).tree.HasFile path content := by
  cases emission with
  | problem other problem => exact held
  | file other text =>
    cases dryRun with
    | true => exact held
    | false =>
      have kept := held.save (apart other rfl) text
      cases ran : saved.tree.save other text with
      | mk tree failed =>
        rw [ran] at kept
        cases failed <;> simpa [emit, ran] using kept

theorem emitAll_cons (dryRun : Bool) (saved : Saved) (first : Emission) (rest : List Emission) :
    emitAll dryRun saved (first :: rest) = emitAll dryRun (emit dryRun saved first) rest := rfl

/-- Two runs in a row save what one run over both lists saves. -/
theorem emitAll_append (dryRun : Bool) (saved : Saved) (first second : List Emission) :
    emitAll dryRun saved (first ++ second) = emitAll dryRun (emitAll dryRun saved first) second :=
  List.foldl_append

/-- What has been reported as written stays so reported, in its place. -/
theorem written_kept (dryRun : Bool) (saved : Saved) (emissions : List Emission) :
    saved.written <+: (emitAll dryRun saved emissions).written := by
  induction emissions generalizing saved with
  | nil => exact List.prefix_rfl
  | cons first rest ih =>
    rw [emitAll_cons]
    refine List.IsPrefix.trans ?_ (ih (emit dryRun saved first))
    cases first with
    | problem path problem => exact List.prefix_rfl
    | file path text =>
      rcases emit_file dryRun saved path text with same | ⟨added, _⟩
      · exact ⟨[], by rw [same, List.append_nil]⟩
      · exact ⟨[path], added.symm⟩

/-- A text stands wherever a file was reported as written. -/
def Backed (saved : Saved) : Prop :=
  ∀ path ∈ saved.written, ∃ text, saved.tree.HasFile path (.text text)

private theorem Backed.emit (backed : saved.Backed) (dryRun : Bool) (emission : Emission) :
    (emit dryRun saved emission).Backed := by
  cases emission with
  | problem path problem => exact backed
  | file other text =>
    cases dryRun with
    | true => exact backed
    | false =>
      cases ran : saved.tree.save other text with
      | mk tree failed =>
        have kept : ∀ path ∈ saved.written, ∃ text, tree.HasFile path (.text text) := by
          intro path listed
          obtain ⟨before, held⟩ := backed path listed
          have outlasted := held.resaved other text
          rwa [ran] at outlasted
        cases failed with
        | some error => simpa [Backed, Saved.emit, ran] using kept
        | none =>
          intro path listed
          simp only [Saved.emit, ran, Bool.false_eq_true, if_false, List.mem_append,
            List.mem_singleton] at listed ⊢
          rcases listed with earlier | rfl
          · exact kept path earlier
          · exact ⟨text, FileTree.save_hasFile ran⟩

/-- A run reports a file as written only if it stands there in the end. -/
theorem Backed.emitAll (backed : saved.Backed) (dryRun : Bool) (emissions : List Emission) :
    (emitAll dryRun saved emissions).Backed := by
  induction emissions generalizing saved with
  | nil => exact backed
  | cons first rest ih => exact ih (backed.emit dryRun first)

/-- A file outlasts the emission of files with other names. -/
theorem emitAll_keeps (held : saved.tree.HasFile path content)
    (apart : ∀ other ∈ filePaths emissions, Apart path other) :
    (emitAll dryRun saved emissions).tree.HasFile path content := by
  induction emissions generalizing saved with
  | nil => exact held
  | cons first rest ih =>
    rw [emitAll_cons]
    refine ih (emit_keeps held fun other listed => ?_) fun other listed => ?_
    · exact apart other (List.mem_filterMap.mpr ⟨first, List.mem_cons_self, listed⟩)
    · obtain ⟨emission, member, named⟩ := List.mem_filterMap.mp listed
      exact apart other (List.mem_filterMap.mpr ⟨emission, List.mem_cons_of_mem _ member, named⟩)

private theorem emit_written (named : path ∈ (emit dryRun saved emission).written) :
    path ∈ saved.written ∨ emission.path? = some path := by
  cases emission with
  | problem other problem => exact .inl named
  | file other text =>
    rcases emit_file dryRun saved other text with same | ⟨added, _⟩
    · exact .inl (same ▸ named)
    · rw [added, List.mem_append, List.mem_singleton] at named
      exact named.imp id fun equal => congrArg some equal.symm

/-- Only files that a run names are reported as written by it. -/
theorem emitAll_written (named : path ∈ (emitAll dryRun saved emissions).written) :
    path ∈ saved.written ∨ path ∈ filePaths emissions := by
  induction emissions generalizing saved with
  | nil => exact .inl named
  | cons first rest ih =>
    rw [emitAll_cons] at named
    rcases ih named with earlier | later
    · rcases emit_written earlier with before | here
      · exact .inl before
      · exact .inr (List.mem_filterMap.mpr ⟨first, List.mem_cons_self, here⟩)
    · obtain ⟨emission, member, emitted⟩ := List.mem_filterMap.mp later
      exact .inr (List.mem_filterMap.mpr ⟨emission, List.mem_cons_of_mem _ member, emitted⟩)

/-- Of emitted files with different names, each one that is reported as written
is there at the end with its own text. -/
theorem emitAll_hasFile (apart : (filePaths emissions).Pairwise Apart)
    (listed : .file path text ∈ emissions) (fresh : path ∉ saved.written)
    (named : path ∈ (emitAll dryRun saved emissions).written) :
    (emitAll dryRun saved emissions).tree.HasFile path (.text text) := by
  induction emissions generalizing saved with
  | nil => cases listed
  | cons first rest ih =>
    rw [emitAll_cons] at named ⊢
    cases first with
    | problem other problem =>
      have later := (List.mem_cons.mp listed).resolve_left (by simp)
      exact ih apart later fresh named
    | file other otherText =>
      obtain ⟨here, below⟩ := List.pairwise_cons.mp apart
      rcases List.mem_cons.mp listed with same | later
      · cases same
        -- No later emission has this path, so a report of it means that it was saved here.
        rcases emit_file dryRun saved path text with unwritten | ⟨_, held⟩
        · rcases emitAll_written named with earlier | again
          · exact absurd (unwritten ▸ earlier) fresh
          · exact absurd (here path again) Apart.irrefl
        · exact emitAll_keeps held here
      · refine ih below later (fun earlier => ?_) named
        rcases emit_written earlier with before | equal
        · exact fresh before
        · cases equal
          exact Apart.irrefl (here path (mem_filePaths later))

/-- Every file among emissions can be saved, each in the tree that the ones
before it left. -/
def AllSave (tree : FileTree) : List Emission → Prop
  | [] => True
  | .problem _ _ :: rest => AllSave tree rest
  | .file path text :: rest =>
    (tree.save path text).2 = none ∧ AllSave (tree.save path text).1 rest

/-- The problems among emissions as a run reports them. -/
def problemErrors (emissions : List Emission) : List Error :=
  emissions.filterMap fun
    | .problem path problem => some (.render path problem.message)
    | .file _ _ => none

private theorem emit_errors (dryRun : Bool) (saved : Saved) (emission : Emission) :
    ∃ added, (emit dryRun saved emission).errors = saved.errors ++ added ∧
      (problemErrors [emission]).Sublist added ∧
      (dryRun = true → added = problemErrors [emission]) := by
  cases emission with
  | problem path problem => exact ⟨[.render path problem.message], rfl, .refl _, fun _ => rfl⟩
  | file path text =>
    cases dryRun with
    | true => exact ⟨[], (List.append_nil _).symm, .refl _, fun _ => rfl⟩
    | false =>
      cases ran : saved.tree.save path text with
      | mk tree failed =>
        cases failed with
        | none =>
          exact ⟨[], by simp [emit, ran], .refl _, fun dry => absurd dry Bool.false_ne_true⟩
        | some error =>
          exact ⟨[.render path error.message], by simp [emit, ran], List.nil_sublist _,
            fun dry => absurd dry Bool.false_ne_true⟩

/-- A run reports all problems in their order, and a dry run nothing else. -/
theorem emitAll_errors (dryRun : Bool) (saved : Saved) (emissions : List Emission) :
    ∃ added, (emitAll dryRun saved emissions).errors = saved.errors ++ added ∧
      (problemErrors emissions).Sublist added ∧
      (dryRun = true → added = problemErrors emissions) := by
  induction emissions generalizing saved with
  | nil => exact ⟨[], (List.append_nil _).symm, .refl _, fun _ => rfl⟩
  | cons first rest ih =>
    obtain ⟨here, emitted, hereReported, hereDry⟩ := emit_errors dryRun saved first
    obtain ⟨later, ran, laterReported, laterDry⟩ := ih (emit dryRun saved first)
    have split : problemErrors (first :: rest) = problemErrors [first] ++ problemErrors rest := by
      rw [← List.singleton_append, problemErrors, List.filterMap_append]
      rfl
    refine ⟨here ++ later, ?_, ?_, fun dry => ?_⟩
    · rw [emitAll_cons, ran, emitted, List.append_assoc]
    · rw [split]
      exact hereReported.append laterReported
    · rw [split, hereDry dry, laterDry dry]

end Saved
end ApiScribe
