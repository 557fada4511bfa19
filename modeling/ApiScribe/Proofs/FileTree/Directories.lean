import ApiScribe.Proofs.FileTree.Saving

/-! Directories that are made stay, and making them again does nothing. A path
without double dots leads to its own names, so in a proper tree directories can
be made for it unless a file is in the way; what fails for this reason makes
nothing, and fails again wherever the file still stands. -/
namespace ApiScribe.FileTree
open Text

variable {tree before after : FileTree} {place found : Place} {path parent : String}
  {names : List String}

/-! What is kept of a tree. -/

/-- What stands at a place of one tree stands there in another one, be it a file
with other content. -/
def KeepsKinds (before after : FileTree) : Prop :=
  ∀ place node, before.node? place = some node →
    ∃ other, after.node? place = some other ∧ (other = .directory ↔ node = .directory)

theorem KeepsKinds.refl (tree : FileTree) : tree.KeepsKinds tree :=
  fun _ node held => ⟨node, held, .rfl⟩

theorem KeepsKinds.trans {between : FileTree} (first : before.KeepsKinds between)
    (second : between.KeepsKinds after) : before.KeepsKinds after := by
  intro place node held
  obtain ⟨middle, heldMiddle, sameFirst⟩ := first place node held
  obtain ⟨other, heldOther, sameSecond⟩ := second place middle heldMiddle
  exact ⟨other, heldOther, sameSecond.trans sameFirst⟩

theorem Extends.keepsKinds (more : before.Extends after) : before.KeepsKinds after :=
  fun place node held => ⟨node, more place node held, .rfl⟩

/-- A directory stays one. -/
theorem KeepsKinds.directory (kept : before.KeepsKinds after)
    (held : before.node? place = some .directory) : after.node? place = some .directory := by
  obtain ⟨other, heldOther, same⟩ := kept place .directory held
  rw [heldOther, same.mpr rfl]

/-- Keeping the kind of every place keeps the directories among them. -/
theorem KeepsKinds.keepsDirectories (kept : before.KeepsKinds after) :
    before.KeepsDirectories after := fun _ held => kept.directory held

/-- A file stays one, perhaps with other content. -/
theorem KeepsKinds.file (kept : before.KeepsKinds after)
    (held : before.node? place = some (.file content)) :
    ∃ content, after.node? place = some (.file content) := by
  obtain ⟨other, heldOther, same⟩ := kept place _ held
  cases other with
  | directory => cases same.mp rfl
  | file content => exact ⟨content, heldOther⟩

/-- A file may be put anywhere but in the place of a directory. -/
theorem KeepsKinds.put_file (kept : before.KeepsKinds after) (content : Content)
    (free : after.node? place ≠ some .directory) :
    before.KeepsKinds (after.put place (.file content)) := by
  intro other node held
  obtain ⟨kind, heldKind, same⟩ := kept other node held
  by_cases here : other = place
  · subst here
    have inside : other ≠ [] := by
      rintro rfl
      exact free rfl
    refine ⟨.file content, node?_put _ _ _ inside, ?_⟩
    have filed : kind ≠ .directory := fun directory => free (directory ▸ heldKind)
    simpa [filed] using same
  · exact ⟨kind, by rw [node?_put_of_ne _ _ here, heldKind], same⟩

/-- A file may be put early where the later tree has one anyway. -/
theorem KeepsKinds.of_put (kept : before.KeepsKinds after) (inside : place ≠ [])
    (held : after.node? place = some (.file content)) (written : Content) :
    (before.put place (.file written)).KeepsKinds after := by
  intro other node there
  by_cases here : other = place
  · subst here
    rw [node?_put _ _ _ inside] at there
    cases there
    exact ⟨_, held, by simp⟩
  · rw [node?_put_of_ne _ _ here] at there
    exact kept other node there

/-- A tree with more directories and nothing else. -/
def GainsDirectories (before after : FileTree) : Prop :=
  ∀ place, after.node? place = before.node? place ∨
    (before.node? place = none ∧ after.node? place = some .directory)

theorem GainsDirectories.refl (tree : FileTree) : tree.GainsDirectories tree := fun _ => .inl rfl

private theorem GainsDirectories.trans {between : FileTree}
    (first : before.GainsDirectories between) (second : between.GainsDirectories after) :
    before.GainsDirectories after := by
  intro place
  rcases second place with same | ⟨none, gained⟩
  · rw [same]
    exact first place
  · rcases first place with same | ⟨_, already⟩
    · exact .inr ⟨same ▸ none, gained⟩
    · rw [already] at none
      cases none

/-- Nothing is lost where only directories are added. -/
theorem GainsDirectories.extends (gains : before.GainsDirectories after) :
    before.Extends after := by
  intro place node held
  rcases gains place with same | ⟨none, _⟩
  · rw [same, held]
  · rw [none] at held
    cases held

/-- Where only directories are added, each file was there before. -/
theorem GainsDirectories.file (gains : before.GainsDirectories after)
    (held : after.node? place = some (.file content)) :
    before.node? place = some (.file content) := by
  rcases gains place with same | ⟨_, gained⟩
  · rw [← same, held]
  · rw [held] at gained
    cases gained

/-! Following names. -/

/-- Following names one list after the other is following them all. -/
theorem follow_append (tree : FileTree) (place : Place) (names others : List String) :
    tree.follow place (names ++ others) =
      (tree.follow place names).bind (tree.follow · others) := by
  induction names generalizing place with
  | nil => rfl
  | cons name rest ih =>
    rw [List.cons_append, follow, follow]
    cases tree.node? place with
    | none => rfl
    | some node =>
      cases node with
      | file content => rfl
      | directory =>
        simp only [ih]
        split
        · rfl
        · split <;> rfl

/-- Nothing is followed past a file. -/
theorem follow_file (held : tree.node? place = some (.file content)) (some : names ≠ []) :
    tree.follow place names = .error .notDirectory := by
  cases names with
  | nil => exact absurd rfl some
  | cons name rest => rw [follow, held]

/-- A single dot stays where it is. -/
theorem follow_dots {dots : List String} (directory : tree.node? place = some .directory)
    (each : ∀ dot ∈ dots, dot = ".") : tree.follow place dots = .ok place := by
  induction dots with
  | nil => rfl
  | cons dot rest ih =>
    rw [follow_cons directory, if_pos (each dot List.mem_cons_self),
      ih fun dot member => each dot (List.mem_cons_of_mem _ member)]

/-- A file in the way is in the way of every tree that keeps it. -/
theorem follow_blocked (kept : before.KeepsKinds after)
    (blocked : before.follow place names = .error .notDirectory) :
    after.follow place names = .error .notDirectory := by
  induction names generalizing place with
  | nil => cases blocked
  | cons name rest ih =>
    cases held : before.node? place with
    | none => simp [follow, held] at blocked
    | some node =>
      cases node with
      | file content =>
        obtain ⟨other, heldOther⟩ := kept.file held
        exact follow_file heldOther (List.cons_ne_nil _ _)
      | directory =>
        rw [follow_cons held] at blocked
        rw [follow_cons (kept.directory held)]
        split
        · rw [if_pos ‹_›] at blocked
          exact ih blocked
        · rw [if_neg ‹_›] at blocked
          split
          · rw [if_pos ‹_›] at blocked
            exact ih blocked
          · rw [if_neg ‹_›] at blocked
            exact ih blocked

theorem locate_of_ne (some : path ≠ "") : tree.locate path = tree.follow [] (steps path) := by
  rw [locate, if_neg]
  simpa using some

/-- A path that led to a directory leads there still. -/
theorem look_kept (kept : before.KeepsDirectories after)
    (look : before.look path = .ok (place, .directory)) :
    after.look path = .ok (place, .directory) := by
  rw [FileTree.look] at look ⊢
  cases located : before.locate (if endsWith path "/" then path ++ "." else path) with
  | error cause => simp [located] at look
  | ok found =>
    cases held : before.node? found with
    | none => simp [located, held] at look
    | some node =>
      simp only [located, held, Except.ok.injEq, Prod.mk.injEq] at look
      obtain ⟨rfl, rfl⟩ := look
      simp only [locate_kept kept located, kept found held]

/-- The names of a closed path beyond those of its parent: dots, and the name that
it ends with. -/
theorem steps_closed (closed : Path.Closed path) :
    ∃ parent dots last, Path.parent? path = some parent ∧
      steps path = steps parent ++ (dots ++ [last]) ∧ (∀ dot ∈ dots, dot = ".") ∧
      parent.length < path.length ∧ Path.Regular parent := by
  obtain ⟨parent, dots, last, found, walked, each, shorter, regular⟩ := Path.parent?_closed closed
  refine ⟨parent, dots.map String.ofList, String.ofList last, found, ?_, ?_, shorter, regular⟩
  · have named (path : String) : steps path = (Path.walked path).map String.ofList := rfl
    rw [named, named, walked, List.map_append, List.map_append, List.append_assoc,
      List.map_singleton]
  · intro dot member
    obtain ⟨chars, listed, rfl⟩ := List.mem_map.mp member
    rw [each chars listed]

/-! Making directories. -/

theorem closed_ne_empty (closed : Path.Closed path) : path ≠ "" := by
  rintro rfl
  obtain ⟨front, last, whole, some, _⟩ := closed
  have only : [[]] = front ++ [last] := whole
  cases front with
  | nil =>
    cases only
    exact some rfl
  | cons first others => cases others <;> cases only

/-- A closed path names something last, so it has no slash at its end. -/
theorem closed_ends (closed : Path.Closed path) : endsWith path "/" = false := by
  obtain ⟨front, last, whole, some, _⟩ := closed
  rw [Bool.eq_false_iff]
  intro ends
  obtain ⟨before, chars⟩ := List.isSuffixOf_iff_suffix.mp ends
  have cut : Path.segments path = splitAt (· == '/') before ++ [[]] := by
    rw [Path.segments, ← chars]
    exact splitAt_append (by rfl) before []
  rw [whole] at cut
  have same := congrArg List.getLast? cut
  rw [List.getLast?_concat, List.getLast?_concat] at same
  exact some (Option.some.inj same)

/-- A regular path is a directory exactly if it can be followed to one; the empty path is none. -/
theorem isDirectory_iff (regular : Path.Regular path) :
    tree.isDirectory path = true ↔
      ∃ place, tree.locate path = .ok place ∧ tree.node? place = some .directory := by
  rcases regular with rfl | rfl | closed
  · refine iff_of_false Bool.false_ne_true ?_
    rintro ⟨place, located, _⟩
    cases located
  · exact iff_of_true rfl ⟨[], rfl, rfl⟩
  · simp only [isDirectory, directory?, look, closed_ends closed, Bool.false_eq_true, if_false]
    cases tree.locate path with
    | error cause => simp
    | ok place =>
      cases held : tree.node? place with
      | none => simp [held]
      | some node => cases node <;> simp [held]

/-- A path to a directory is still one after saving. -/
theorem KeepsKinds.isDirectory (kept : before.KeepsKinds after) (regular : Path.Regular path)
    (there : before.isDirectory path = true) : after.isDirectory path = true := by
  rw [isDirectory_iff regular] at there ⊢
  obtain ⟨place, located, held⟩ := there
  exact ⟨place, locate_kept kept.keepsDirectories located, kept.directory held⟩

/-- A directory is made only at a place where nothing stood. -/
theorem makeDirectory_cases (ran : tree.makeDirectory path = .ok made) :
    ∃ place, tree.locate path = .ok place ∧ tree.node? place = none ∧
      made = tree.put place .directory := by
  rw [makeDirectory] at ran
  cases located : tree.locate path with
  | error cause => simp [located] at ran
  | ok place =>
    cases held : tree.node? place with
    | some node => simp [located, held] at ran
    | none =>
      simp only [located, held, Except.ok.injEq] at ran
      exact ⟨place, rfl, held, ran.symm⟩

/-- Making a directory adds it and nothing else, and the path then leads to it. -/
theorem makeDirectory_gains (ran : tree.makeDirectory path = .ok made) :
    tree.GainsDirectories made ∧ (Path.Regular path → made.isDirectory path = true) := by
  obtain ⟨place, located, none, rfl⟩ := makeDirectory_cases ran
  have inside : place ≠ [] := by
    rintro rfl
    cases none
  refine ⟨fun other => ?_, fun regular => ?_⟩
  · by_cases here : other = place
    · subst here
      exact .inr ⟨none, node?_put _ _ _ inside⟩
    · exact .inl (node?_put_of_ne _ _ here)
  · have free : tree.node? place ≠ some .directory := by
      rw [none]
      simp
    exact (isDirectory_iff regular).mpr
      ⟨place, locate_kept (put_keepsDirectories free) located, node?_put _ _ _ inside⟩

/-- A directory that is there is not made. -/
theorem makeDirectory_exists (located : tree.locate path = .ok place)
    (held : tree.node? place = some node) : tree.makeDirectory path = .error .exists := by
  simp only [makeDirectory, located, held]

/-- Asking for a directory that is there changes nothing and succeeds. -/
theorem makeDirectories_of_isDirectory (regular : Path.Regular path)
    (there : tree.isDirectory path = true) : tree.makeDirectories path = (tree, none) := by
  obtain ⟨place, located, held⟩ := (isDirectory_iff regular).mp there
  rw [makeDirectories_eq tree regular]
  simp only [makeDirectory_exists located held, there, if_true, ite_self]

/-- How the attempt to make directories for a closed path with a parent ends. -/
inductive Makes (tree : FileTree) (path parent : String) : FileTree × Option FileError → Prop where
  | itself (ran : tree.makeDirectory path = .ok made) : Makes tree path parent (made, none)
  | there (there : tree.isDirectory path = true) : Makes tree path parent (tree, none)
  | blocked (failed : tree.makeDirectory path = .error cause) (blocks : cause ≠ .missing)
      (absent : tree.isDirectory path = false) : Makes tree path parent (tree, some cause)
  | unparented (missing : tree.makeDirectory path = .error .missing)
      (failed : tree.makeDirectories parent = (above, some cause)) :
      Makes tree path parent (above, some cause)
  | last (parented : tree.makeDirectories parent = (above, none))
      (ran : above.makeDirectory path = .ok made) : Makes tree path parent (made, none)
  | met (parented : tree.makeDirectories parent = (above, none))
      (there : above.isDirectory path = true) : Makes tree path parent (above, none)
  | stopped (missing : tree.makeDirectory path = .error .missing)
      (parented : tree.makeDirectories parent = (above, none))
      (failed : above.makeDirectory path = .error cause)
      (absent : above.isDirectory path = false) : Makes tree path parent (above, some cause)

/-- Every attempt to make directories ends in one of the ways listed. -/
theorem makeDirectories_makes (tree : FileTree) (closed : Path.Closed path)
    (found : Path.parent? path = some parent) :
    Makes tree path parent (tree.makeDirectories path) := by
  have orThere {tree : FileTree} {cause : FileError} {result : FileTree × Option FileError}
      (ends : result = (tree, if tree.isDirectory path then none else some cause)) :
      tree.isDirectory path = true ∧ result = (tree, none) ∨
        tree.isDirectory path = false ∧ result = (tree, some cause) := by
    cases there : tree.isDirectory path with
    | true => exact .inl ⟨rfl, by rw [ends, there, if_pos rfl]⟩
    | false => exact .inr ⟨rfl, by rw [ends, there, if_neg Bool.false_ne_true]⟩
  have ran := makeDirectories_eq tree (.inr (.inr closed))
  have nonempty : ¬path.isEmpty = true := by simpa using closed_ne_empty closed
  simp only [if_neg nonempty, found, Option.map_some] at ran
  cases itself : tree.makeDirectory path with
  | ok made =>
    simp only [itself] at ran
    rw [ran]
    exact .itself itself
  | error cause =>
    by_cases missing : cause = .missing
    · subst missing
      cases parented : tree.makeDirectories parent with
      | mk above failed =>
        cases failed with
        | some cause =>
          simp only [itself, parented] at ran
          rw [ran]
          exact .unparented itself parented
        | none =>
          cases made : above.makeDirectory path with
          | ok made' =>
            simp only [itself, parented, made] at ran
            rw [ran]
            exact .last parented made
          | error cause =>
            simp only [itself, parented, made] at ran
            rcases orThere ran with ⟨there, same⟩ | ⟨absent, same⟩
            · rw [same]
              exact .met parented there
            · rw [same]
              exact .stopped itself parented made absent
    · have ends : tree.makeDirectories path =
          (tree, if tree.isDirectory path then none else some cause) := by
        cases cause <;> first | exact absurd rfl missing | simpa only [itself] using ran
      rcases orThere ends with ⟨there, same⟩ | ⟨absent, same⟩
      · rw [same]
        exact .there there
      · rw [same]
        exact .blocked itself missing absent

/-- What holds of the paths without parts and follows for a path from its parent
holds of every path that directories are made for. -/
theorem regular_induction {motive : (path : String) → Path.Regular path → Prop}
    (empty : motive "" (.inl rfl)) (root : motive "/" (.inr (.inl rfl)))
    (below : ∀ path parent (closed : Path.Closed path), Path.parent? path = some parent →
      (above : Path.Regular parent) → motive parent above → motive path (.inr (.inr closed)))
    (path : String) (regular : Path.Regular path) : motive path regular := by
  induction size : path.length using Nat.strongRecOn generalizing path with
  | ind length ih =>
    rcases regular with rfl | rfl | closed
    · exact empty
    · exact root
    · obtain ⟨parent, _, _, found, _, _, shorter, above⟩ := Path.parent?_closed closed
      exact below path parent closed found above (ih _ (size ▸ shorter) parent above rfl)

/-- Making directories only adds directories, and ends with the one that is asked for. -/
theorem makeDirectories_gains (tree : FileTree) (regular : Path.Regular path) :
    tree.GainsDirectories (tree.makeDirectories path).1 ∧
      ((tree.makeDirectories path).2 = none →
        path = "" ∨ (tree.makeDirectories path).1.isDirectory path = true) := by
  induction path, regular using regular_induction with
  | empty => exact ⟨.refl tree, fun _ => .inl rfl⟩
  | root => exact ⟨.refl tree, fun _ => .inr rfl⟩
  | below path parent closed found _ ih =>
    obtain ⟨gains, _⟩ := ih
    have regular : Path.Regular path := .inr (.inr closed)
    have makes := makeDirectories_makes tree closed found
    generalize tree.makeDirectories path = result at makes ⊢
    cases makes with
    | itself ran =>
      obtain ⟨made, there⟩ := makeDirectory_gains ran
      exact ⟨made, fun _ => .inr (there regular)⟩
    | there there => exact ⟨.refl tree, fun _ => .inr there⟩
    | blocked => exact ⟨.refl tree, fun failed => by cases failed⟩
    | unparented _ failed =>
      rw [failed] at gains
      exact ⟨gains, fun failed => by cases failed⟩
    | last parented ran =>
      obtain ⟨made, there⟩ := makeDirectory_gains ran
      rw [parented] at gains
      exact ⟨gains.trans made, fun _ => .inr (there regular)⟩
    | met parented there =>
      rw [parented] at gains
      exact ⟨gains, fun _ => .inr there⟩
    | stopped _ parented =>
      rw [parented] at gains
      exact ⟨gains, fun failed => by cases failed⟩

/-- How the attempt to save a file ends whose path has a parent. -/
inductive Saves (tree : FileTree) (path parent text : String) :
    FileTree × Option SaveError → Prop where
  | unmade (failed : tree.makeDirectories parent = (made, some cause)) :
      Saves tree path parent text (made, some (.directory parent cause))
  | unwritten (parented : tree.makeDirectories parent = (made, none))
      (failed : made.write path (.text text) = .error cause) :
      Saves tree path parent text (made, some (.file path cause))
  | saved (parented : tree.makeDirectories parent = (made, none))
      (ran : made.write path (.text text) = .ok saved) :
      Saves tree path parent text (saved, none)

/-- Every attempt to save a file ends in one of the three ways. -/
theorem save_saves (tree : FileTree) (text : String) (found : Path.parent? path = some parent) :
    Saves tree path parent text (tree.save path text) := by
  cases parented : tree.makeDirectories parent with
  | mk made failed =>
    cases failed with
    | some cause =>
      have ends : tree.save path text = (made, some (.directory parent cause)) := by
        simp [save, found, parented]
      rw [ends]
      exact .unmade parented
    | none =>
      cases ran : made.write path (.text text) with
      | error cause =>
        have ends : tree.save path text = (made, some (.file path cause)) := by
          simp [save, found, parented, ran]
        rw [ends]
        exact .unwritten parented ran
      | ok saved =>
        have ends : tree.save path text = (saved, none) := by
          simp [save, found, parented, ran]
        rw [ends]
        exact .saved parented ran

end ApiScribe.FileTree
