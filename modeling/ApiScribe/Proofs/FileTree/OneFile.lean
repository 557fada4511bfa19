import ApiScribe.Proofs.FileTree.Proper
import Mathlib.Logic.Relation

/-! Saving touches one file. A saved text stands at the place where its path leads, below
directories, and an attempt that fails leaves every file as it was. Beyond that saving makes
directories, and only where paths above the saved one lead. This is so in every tree and for every
path, be it one that goes up again by double dots. Without those a text is saved unless a file or a
directory is in the way. -/
namespace ApiScribe
open Relation

namespace Path

/-- A path is the parent of another one. -/
def IsParent (parent path : String) : Prop := parent? path = some parent

/-- A path is above another one: its parent or a path above that. -/
def Above : String → String → Prop := TransGen IsParent

private theorem Above.regular (upTo : Above above path) : Regular above := by
  obtain ⟨_, found, _⟩ := TransGen.head'_iff.mp upTo
  exact parent?_regular found

end Path

namespace FileTree
open ApiScribe.Path (IsParent Above Regular)

variable {tree before between after : FileTree} {place found : Place}
  {path parent above text : String} {names : List String}

/-! On the way to a place. -/

/-- Everything above a place is a directory. -/
def Reached (tree : FileTree) (place : Place) : Prop :=
  ∀ front, front <+: place → front ≠ place → tree.node? front = some .directory

private theorem reached_root (tree : FileTree) : tree.Reached [] :=
  fun _ before apart => absurd (List.prefix_nil.mp before) apart

private theorem Reached.up (reached : tree.Reached place) : tree.Reached place.dropLast := by
  intro front before apart
  refine reached front (before.trans place.dropLast_prefix) ?_
  rintro rfl
  have shorter := before.length_le
  rw [List.length_dropLast] at shorter
  cases front with
  | nil => exact apart rfl
  | cons name rest =>
    rw [List.length_cons] at shorter
    omega

private theorem Reached.down (reached : tree.Reached place)
    (directory : tree.node? place = some .directory) (name : String) :
    tree.Reached (place ++ [name]) := by
  intro front before apart
  have inside := (List.prefix_concat_iff.mp before).resolve_left apart
  by_cases here : front = place
  · rw [here, directory]
  · exact reached front inside here

private theorem Reached.kept (reached : before.Reached place)
    (kept : before.KeepsDirectories after) :
    after.Reached place := fun front inside apart => kept front (reached front inside apart)

/-- Names are followed through directories only. -/
private theorem follow_reached (start : tree.Reached place)
    (followed : tree.follow place names = .ok found) :
    tree.Reached found := by
  induction names generalizing place with
  | nil =>
    cases followed
    exact start
  | cons name rest ih =>
    have directory := directory_of_follow followed
    rw [follow_cons directory] at followed
    split at followed
    · exact ih start followed
    · split at followed
      · exact ih start.up followed
      · exact ih (start.down directory name) followed

private theorem locate_reached (located : tree.locate path = .ok place) : tree.Reached place := by
  rw [locate] at located
  split at located
  · cases located
  · exact follow_reached tree.reached_root located

/-! Paths above a directory. -/

/-- The way to a directory leads through its parent. -/
theorem isDirectory_parent (regular : Regular path) (found : IsParent parent path)
    (there : path = "" ∨ tree.isDirectory path = true) :
    parent = "" ∨ tree.isDirectory parent = true := by
  rcases regular with rfl | rfl | closed
  · cases found
  · cases found
  · obtain ⟨parent', dots, last, found', split, _, _, regular⟩ := steps_closed closed
    obtain rfl : parent = parent' := Option.some.inj (found.symm.trans found')
    have some := closed_ne_empty closed
    obtain ⟨place, located, _⟩ :=
      (isDirectory_iff (.inr (.inr closed))).mp (there.resolve_left some)
    rw [locate_of_ne some, split, follow_append] at located
    cases followed : tree.follow [] (steps parent) with
    | error cause =>
      rw [followed] at located
      cases located
    | ok between =>
      rw [followed] at located
      by_cases empty : parent = ""
      · exact .inl empty
      · refine .inr ((isDirectory_iff regular).mpr ⟨between, ?_, ?_⟩)
        · rw [locate_of_ne empty, followed]
        · cases dots <;> exact directory_of_follow located

/-- All paths above a directory are directories. The empty path stands for the one that relative
paths begin in. -/
theorem isDirectory_above (regular : Regular path)
    (there : path = "" ∨ tree.isDirectory path = true) (above : ReflTransGen IsParent other path) :
    other = "" ∨ tree.isDirectory other = true := by
  have both : Regular other ∧ (other = "" ∨ tree.isDirectory other = true) := by
    induction above using ReflTransGen.head_induction_on with
    | refl => exact ⟨regular, there⟩
    | head found _ ih => exact ⟨Path.parent?_regular found, isDirectory_parent ih.1 found ih.2⟩
  exact both.2

/-! Directories that are made. -/

/-- What is new stands where a path leads, or one above it. -/
def NewUpTo (path : String) (before after : FileTree) : Prop :=
  ∀ place, after.node? place ≠ before.node? place →
    ∃ above, ReflTransGen IsParent above path ∧ after.locate above = .ok place

private theorem NewUpTo.refl (path : String) (tree : FileTree) : NewUpTo path tree tree :=
  fun _ changed => absurd rfl changed

private theorem NewUpTo.trans (first : NewUpTo path before between)
    (second : NewUpTo path between after) (kept : between.KeepsDirectories after) :
    NewUpTo path before after := by
  intro place changed
  by_cases same : after.node? place = between.node? place
  · obtain ⟨above, upTo, located⟩ := first place (same ▸ changed)
    exact ⟨above, upTo, locate_kept kept located⟩
  · exact second place same

/-- What is new up to a parent is new up to the path. -/
private theorem NewUpTo.below (new : NewUpTo parent before after) (found : IsParent parent path) :
    NewUpTo path before after := by
  intro place changed
  obtain ⟨above, upTo, located⟩ := new place changed
  exact ⟨above, upTo.tail found, located⟩

private theorem makeDirectory_newUpTo (ran : tree.makeDirectory path = .ok made) :
    NewUpTo path tree made := by
  obtain ⟨place, located, none, rfl⟩ := makeDirectory_cases ran
  intro other changed
  by_cases here : other = place
  · have free : tree.node? place ≠ some .directory := by simp [none]
    rw [here]
    exact ⟨path, .refl, locate_kept (put_keepsDirectories free) located⟩
  · exact absurd (node?_put_of_ne _ _ here) changed

/-- Directories are made on the way to the path and nowhere else. -/
private theorem makeDirectories_newUpTo (tree : FileTree) (regular : Regular path) :
    NewUpTo path tree (tree.makeDirectories path).1 := by
  induction path, regular using regular_induction with
  | empty => exact .refl _ tree
  | root => exact .refl _ tree
  | below path parent closed found above ih =>
    have makes := makeDirectories_makes tree closed found
    have later {middle made : FileTree} (parented : tree.makeDirectories parent = (middle, none))
        (ran : middle.makeDirectory path = .ok made) : NewUpTo path tree made := by
      rw [parented] at ih
      obtain ⟨gains, _⟩ := makeDirectory_gains ran
      exact (ih.below found).trans (makeDirectory_newUpTo ran) gains.extends.keepsKinds.keepsDirectories
    generalize tree.makeDirectories path = result at makes ⊢
    cases makes with
    | itself ran => exact makeDirectory_newUpTo ran
    | there => exact .refl _ tree
    | blocked => exact .refl _ tree
    | unparented _ failed =>
      rw [failed] at ih
      exact ih.below found
    | last parented ran => exact later parented ran
    | met parented =>
      rw [parented] at ih
      exact ih.below found
    | stopped _ parented =>
      rw [parented] at ih
      exact ih.below found

/-! Saving. -/

/-- A tree with the directories that a path needs, or some of them. -/
structure Prepared (tree : FileTree) (path : String) (made : FileTree) : Prop where
  gains : tree.GainsDirectories made
  above : ∀ place, made.node? place ≠ tree.node? place →
    ∃ above, Above above path ∧ made.locate above = .ok place

/-- How the attempt to save a file ends: after some directories, or after all of them with the
file written. -/
inductive Attempt (tree : FileTree) (path text : String) : FileTree × Option SaveError → Prop where
  | failed (prepared : tree.Prepared path made) : Attempt tree path text (made, some error)
  | saved (prepared : tree.Prepared path made)
      (ready : ∀ above, Above above path → above = "" ∨ made.isDirectory above = true)
      (ran : made.write path (.text text) = .ok saved) : Attempt tree path text (saved, none)

private theorem prepared_makeDirectories (tree : FileTree) (found : IsParent parent path) :
    tree.Prepared path (tree.makeDirectories parent).1 := by
  have regular := Path.parent?_regular found
  refine ⟨(makeDirectories_gains tree regular).1, fun place changed => ?_⟩
  obtain ⟨above, upTo, located⟩ := makeDirectories_newUpTo tree regular place changed
  exact ⟨above, .tail' upTo found, located⟩

/-- Every attempt to save fails behind some of the directories or writes the file behind all of
them. -/
private theorem save_attempt (tree : FileTree) (path text : String) :
    Attempt tree path text (tree.save path text) := by
  cases found : Path.parent? path with
  | none =>
    have prepared : tree.Prepared path tree := ⟨.refl tree, fun place changed => absurd rfl changed⟩
    have alone : ∀ above, Above above path → above = "" ∨ tree.isDirectory above = true := by
      intro above upTo
      obtain ⟨parent, _, found'⟩ := TransGen.tail'_iff.mp upTo
      cases found.symm.trans found'
    cases ran : tree.write path (.text text) with
    | error cause =>
      have ends : tree.save path text = (tree, some (.file path cause)) := by simp [save, found, ran]
      rw [ends]
      exact .failed prepared
    | ok saved =>
      have ends : tree.save path text = (saved, none) := by simp [save, found, ran]
      rw [ends]
      exact .saved prepared alone ran
  | some parent =>
    have prepared := prepared_makeDirectories tree found
    have regular := Path.parent?_regular found
    obtain ⟨_, there⟩ := makeDirectories_gains tree regular
    have saves := save_saves tree text found
    generalize tree.save path text = result at saves ⊢
    cases saves with
    | unmade failed =>
      rw [failed] at prepared
      exact .failed prepared
    | unwritten parented =>
      rw [parented] at prepared
      exact .failed prepared
    | saved parented ran =>
      rw [parented] at prepared there
      refine .saved prepared (fun above upTo => ?_) ran
      obtain ⟨parent', upToParent, found'⟩ := TransGen.tail'_iff.mp upTo
      obtain rfl : parent = parent' := Option.some.inj (found.symm.trans found')
      exact isDirectory_above regular (there rfl) upToParent

private theorem look_of_locate (ends : Text.endsWith path "/" = false)
    (located : tree.locate path = .ok place) (held : tree.node? place = some node) :
    tree.look path = .ok (place, node) := by
  simp [look, ends, located, held]

/-- What saving under a path leaves as it is: files, but for one that may be named, and
directories. New directories stand where paths above the path lead. -/
structure Untouched (path : String) (but : Option Place) (before after : FileTree) : Prop where
  files : ∀ place, some place ≠ but → ∀ content,
    after.node? place = some (.file content) ↔ before.node? place = some (.file content)
  directories : before.KeepsDirectories after
  new : ∀ place, after.node? place = some .directory → before.node? place ≠ some .directory →
    ∃ above, Above above path ∧ after.locate above = .ok place

/-- A text that was saved under a path and stands at the place where the path leads. -/
structure Stored (before after : FileTree) (path text : String) (place : Place) : Prop
    extends Untouched path (some place) before after where
  file : after.look path = .ok (place, .file (.text text))
  reached : after.Reached place
  above : ∀ above, Above above path → above = "" ∨ after.isDirectory above = true

private theorem Prepared.untouched (prepared : tree.Prepared path made) :
    Untouched path none tree made where
  files place _ content := by
    rcases prepared.gains place with same | ⟨none, gained⟩
    · rw [same]
    · simp [none, gained]
  directories := prepared.gains.extends.keepsKinds.keepsDirectories
  new place there free := prepared.above place fun same => free (same ▸ there)

private theorem Untouched.put (untouched : Untouched path none before between)
    (free : between.node? place ≠ some .directory) (content : Content) :
    Untouched path (some place) before (between.put place (.file content)) where
  files other apart content' := by
    have apart : other ≠ place := fun same => apart (congrArg some same)
    rw [node?_put_of_ne _ _ apart]
    exact untouched.files other (by simp) content'
  directories other held := put_keepsDirectories free other (untouched.directories other held)
  new other there new := by
    have apart : other ≠ place := by
      rintro rfl
      have inside : other ≠ [] := fun root => free (by rw [root]; rfl)
      rw [node?_put _ _ _ inside] at there
      cases there
    rw [node?_put_of_ne _ _ apart] at there
    obtain ⟨above, upTo, located⟩ := untouched.new other there new
    exact ⟨above, upTo, locate_kept (put_keepsDirectories free) located⟩

/-- Saving touches one file. If it succeeds, the text stands where the path leads, everything
above is a directory, and all other files and all directories are kept; if it fails, all files
and directories are. In both cases a new directory stands where a path above leads. -/
theorem save_one_file (tree : FileTree) (path text : String) :
    match tree.save path text with
    | (after, none) => ∃ place, Stored tree after path text place
    | (after, some _) => Untouched path none tree after := by
  have attempt := save_attempt tree path text
  generalize tree.save path text = result at attempt ⊢
  cases attempt with
  | failed prepared => exact prepared.untouched
  | @saved made _ prepared ready ran =>
    obtain ⟨ends, place, located, free, rfl⟩ := write_cases ran
    have kinds := (KeepsKinds.refl made).put_file (.text text) free
    have kept := kinds.keepsDirectories
    have inside : place ≠ [] := fun root => free (by rw [root]; rfl)
    exact ⟨place, {
      prepared.untouched.put free (.text text) with
      file := look_of_locate ends (locate_kept kept located) (node?_put _ _ _ inside)
      reached := (locate_reached located).kept kept
      above := fun other upTo => (ready other upTo).imp_right (kinds.isDirectory upTo.regular) }⟩

/-- A file in the way of a directory is kept. -/
example : (empty.save "types/shop" "one").2 = none ∧
    ((empty.save "types/shop" "one").1.save "types/shop/index" "two").2 =
      some (.directory "types/shop" .exists) ∧
    ((empty.save "types/shop" "one").1.save "types/shop/index" "two").1.node? ["types", "shop"] =
      some (.file (.text "one")) := by
  decide +kernel

/-! When saving succeeds. -/

/-- Nothing is in the way of a file: there is no file above its place and no directory there. -/
structure Free (tree : FileTree) (place : Place) : Prop where
  above : ∀ front, front <+: place → front ≠ place → ∀ content,
    tree.node? front ≠ some (.file content)
  here : tree.node? place ≠ some .directory

/-- The last name of a closed path is no dot, unless it is the only one. -/
theorem steps_closed_last (closed : Path.Closed path) (split : steps path = names ++ [last])
    (dot : last = ".") : names = [] := by
  obtain ⟨front, ending, whole, nonempty, dotted⟩ := closed
  have ends : steps path =
      (front.filter fun segment => !segment.isEmpty).map String.ofList ++ [String.ofList ending] := by
    have kept : ([ending].filter fun segment => !segment.isEmpty) = [ending] :=
      List.filter_cons_of_pos (by simpa using nonempty)
    show ((Path.segments path).filter fun segment => !segment.isEmpty).map String.ofList = _
    rw [whole, List.filter_append, kept, List.map_append, List.map_singleton]
  obtain ⟨same, final⟩ := List.append_inj' (split.symm.trans ends) rfl
  have alone : front = [] := by
    apply dotted
    rw [← String.toList_ofList (l := ending), ← List.singleton_inj.mp final, dot]
    rfl
  rw [same, alone]
  rfl

private theorem steps_above (regular : Regular path) (above : ReflTransGen IsParent other path) :
    steps other <+: steps path := by
  have both : Regular other ∧ steps other <+: steps path := by
    induction above using ReflTransGen.head_induction_on with
    | refl => exact ⟨regular, List.prefix_rfl⟩
    | @head parent child found _ ih =>
      refine ⟨Path.parent?_regular found, List.IsPrefix.trans ?_ ih.2⟩
      rcases ih.1 with rfl | rfl | closed
      · cases found
      · cases found
      · obtain ⟨parent', dots, last, found', split, _⟩ := steps_closed closed
        obtain rfl : parent = parent' := Option.some.inj (found.symm.trans found')
        rw [split]
        exact List.prefix_append _ _
  exact both.2

/-- Without double dots, names that are not followed to their end come to a file. -/
theorem follow_stopped (straight : ".." ∉ names)
    (stopped : tree.follow place (names ++ [last]) = .error .notDirectory) :
    ∃ front content, front <+: place ++ names.filter (· != ".") ∧
      tree.node? front = some (.file content) := by
  induction names generalizing place with
  | nil =>
    rw [List.nil_append, follow] at stopped
    split at stopped
    · cases stopped
    · next content held => exact ⟨place, content, List.prefix_append _ _, held⟩
    · split_ifs at stopped <;> cases stopped
  | cons name rest ih =>
    rw [List.mem_cons, not_or] at straight
    obtain ⟨here, below⟩ := straight
    rw [List.cons_append, follow] at stopped
    split at stopped
    · cases stopped
    · next content held => exact ⟨place, content, List.prefix_append _ _, held⟩
    · split at stopped
      · next dot =>
        rw [List.filter_cons_of_neg (by simp [dot])]
        exact ih below stopped
      · next dot =>
        rw [if_neg fun same => here same.symm] at stopped
        rw [List.filter_cons_of_pos (by simpa using dot), List.append_cons]
        exact ih below stopped

private theorem write_located (ends : Text.endsWith path "/" = false)
    (located : tree.locate path = .ok place) (free : tree.node? place ≠ some .directory) :
    tree.write path content = .ok (tree.put place (.file content)) := by
  rw [write, if_neg (by simp [ends]), located]
  cases held : tree.node? place with
  | none => simp [held]
  | some node =>
    cases node with
    | directory => exact absurd held free
    | file => simp [held]

/-- A file can be saved only where nothing is in the way. -/
private theorem free_of_saved (straight : ".." ∉ steps path)
    (saved : (tree.save path text).2 = none) :
    Free tree ((steps path).filter (· != ".")) := by
  have attempt := save_attempt tree path text
  generalize tree.save path text = result at attempt saved
  cases attempt with
  | failed => cases saved
  | @saved made _ prepared ready ran =>
    obtain ⟨_, place, located, free, _⟩ := write_cases ran
    have reached := locate_reached located
    rw [locate_of_ne (by rintro rfl; cases located)] at located
    obtain rfl : place = _ := follow_straight straight located
    refine ⟨fun front before apart content held => ?_, fun directory => free ?_⟩
    · have kept := prepared.gains.extends front _ held
      rw [reached front before apart] at kept
      cases kept
    · exact prepared.gains.extends _ _ directory

/-- The directories that are made for a path do not stand where the path itself leads. -/
theorem Free.not_made (free : Free tree ((steps parent ++ names).filter (· != ".")))
    (regular : Regular parent) (straight : ".." ∉ steps parent) (further : ∃ name ∈ names, name ≠ ".") :
    (tree.makeDirectories parent).1.node? ((steps parent ++ names).filter (· != ".")) ≠
      some .directory := by
  intro there
  obtain ⟨above, upTo, located⟩ := makeDirectories_newUpTo tree regular _ fun same =>
    free.here (same ▸ there)
  have walked := steps_above regular upTo
  have straightAbove : ".." ∉ steps above := fun member => straight (walked.subset member)
  rw [locate_of_ne (by rintro rfl; cases located)] at located
  have longer := (walked.filter (· != ".")).length_le
  have spelled := congrArg List.length (follow_straight straightAbove located)
  obtain ⟨name, member, plain⟩ := further
  have some : 0 < (names.filter (· != ".")).length :=
    List.length_pos_of_mem (List.mem_filter.mpr ⟨member, by simpa using plain⟩)
  rw [List.filter_append, List.length_append, List.nil_append] at spelled
  omega

/-- In a proper tree nothing else can stop it. -/
private theorem Proper.saved_of_free (proper : Proper tree) (closed : Path.Closed path)
    (straight : ".." ∉ steps path) (free : Free tree ((steps path).filter (· != ".")))
    (text : String) : (tree.save path text).2 = none := by
  obtain ⟨parent, dots, last, found, split, each, _, regular⟩ := steps_closed closed
  have straightAbove : ".." ∉ steps parent := fun member =>
    straight (split ▸ List.mem_append_left _ member)
  have straightLast : last ≠ ".." := by
    rintro rfl
    exact straight (by simp [split])
  have plain : last ≠ "." := by
    intro dot
    have alone := steps_closed_last closed (split.trans (List.append_assoc ..).symm) dot
    apply free.here
    rw [split, ← List.append_assoc, alone, dot]
    rfl
  have dotted : dots.filter (· != ".") = [] :=
    List.filter_eq_nil_iff.mpr fun dot member => by simp [each dot member]
  have target : (steps path).filter (· != ".") = (steps parent).filter (· != ".") ++ [last] := by
    rw [split, List.filter_append, List.filter_append, dotted, List.nil_append,
      List.filter_cons_of_pos (by simpa using plain), List.filter_nil]
  have saves := save_saves tree text found
  generalize tree.save path text = result at saves ⊢
  cases saves with
  | unmade failed =>
    -- A file is in the way of the parent, so it stands above the path.
    obtain ⟨_, blocked⟩ := proper.makeDirectories_failed regular straightAbove failed
    have stopped := blocked.below (closed_ne_empty closed) split (by simp)
    rw [locate_of_ne (closed_ne_empty closed), split, ← List.append_assoc] at stopped
    have straightFront : ".." ∉ steps parent ++ dots := fun member =>
      straight (split ▸ List.append_assoc .. ▸ List.mem_append_left _ member)
    obtain ⟨front, content, before, held⟩ := follow_stopped straightFront stopped
    rw [List.nil_append, List.filter_append, dotted, List.append_nil] at before
    refine absurd held (free.above front (target ▸ before.trans (List.prefix_append _ _)) ?_ content)
    rintro rfl
    have longer := target ▸ before.length_le
    rw [List.length_append, List.length_singleton] at longer
    omega
  | @unwritten made _ parented failed =>
    obtain ⟨_, there⟩ := makeDirectories_gains tree regular
    have unmade := (split ▸ free).not_made regular straightAbove ⟨last, by simp, plain⟩
    rw [parented] at there unmade
    obtain ⟨place, followed, directory⟩ := directory_located regular (there rfl)
    have located := locate_below closed split each straightLast followed directory
    obtain rfl : place = _ := follow_straight straightAbove followed
    rw [← split, target] at unmade
    rw [if_neg plain, List.nil_append] at located
    rw [write_located (closed_ends closed) located unmade] at failed
    cases failed
  | saved => rfl

/-- In a proper tree a text can be saved under a path without double dots unless a file stands
above the place that the path leads to or a directory stands there. -/
theorem Proper.save_succeeds_iff (proper : Proper tree) (closed : Path.Closed path)
    (straight : ".." ∉ steps path) (text : String) :
    (tree.save path text).2 = none ↔ Free tree ((steps path).filter (· != ".")) :=
  ⟨free_of_saved straight, fun free => proper.saved_of_free closed straight free text⟩

end FileTree
end ApiScribe
