import ApiScribe.Proofs.FileTree.Directories
import Mathlib.Data.List.Nodup

/-! Proper trees: whatever stands somewhere stands in a directory, and every
place is listed once by plain names. Saving keeps a tree proper. In a proper
tree directories can be made for a path without double dots unless a file is in
the way of it; what fails for this reason makes nothing. -/
namespace ApiScribe.FileTree
open Text

variable {tree before after : FileTree} {place found : Place} {path parent name : String}
  {names : List String}

/-- A name that stands for itself in a path. -/
structure PlainName (name : String) : Prop where
  nonempty : name ≠ ""
  dotless : name ≠ "." ∧ name ≠ ".."
  whole : '/' ∉ name.toList

instance (name : String) : Decidable (PlainName name) :=
  decidable_of_iff (name ≠ "" ∧ (name ≠ "." ∧ name ≠ "..") ∧ '/' ∉ name.toList)
    ⟨fun ⟨nonempty, dotless, whole⟩ => ⟨nonempty, dotless, whole⟩,
      fun plain => ⟨plain.nonempty, plain.dotless, plain.whole⟩⟩

/-- A tree as a file system holds one. -/
structure Proper (tree : FileTree) : Prop where
  distinct : (tree.nodes.map Prod.fst).Nodup
  inside : ∀ entry ∈ tree.nodes, entry.1 ≠ []
  plain : ∀ entry ∈ tree.nodes, ∀ name ∈ entry.1, PlainName name
  parent : ∀ place name node, tree.node? (place ++ [name]) = some node →
    tree.node? place = some .directory

/-- A place for one name in a directory. -/
def Within (tree : FileTree) (place : Place) : Prop :=
  ∃ parent name, place = parent ++ [name] ∧ PlainName name ∧ tree.node? parent = some .directory

theorem mem_of_node? (inside : place ≠ []) (held : tree.node? place = some node) :
    (place, node) ∈ tree.nodes := by
  rw [node?, if_neg inside] at held
  obtain ⟨front, rest, split, _⟩ := List.lookup_eq_some_iff.mp held
  rw [split]
  exact List.mem_append_right _ List.mem_cons_self

private theorem lookup_of_mem {entries : List (Place × Node)}
    (distinct : (entries.map Prod.fst).Nodup) (member : (place, node) ∈ entries) :
    entries.lookup place = some node := by
  induction entries with
  | nil => cases member
  | cons entry rest ih =>
    obtain ⟨apart, below⟩ := List.nodup_cons.mp distinct
    rcases List.mem_cons.mp member with rfl | later
    · exact List.lookup_cons_self
    · have other : (place == entry.1) = false := by
        rw [beq_eq_false_iff_ne]
        rintro rfl
        exact apart (List.mem_map.mpr ⟨_, later, rfl⟩)
      rw [List.lookup_cons, other]
      exact ih below later

namespace Proper

/-- In a proper tree each place has one node, the one it is listed with. -/
theorem node?_eq_some_iff (proper : Proper tree) (inside : place ≠ []) :
    tree.node? place = some node ↔ (place, node) ∈ tree.nodes := by
  refine ⟨mem_of_node? inside, fun member => ?_⟩
  rw [node?, if_neg inside]
  exact lookup_of_mem proper.distinct member

/-- A tree is proper if each of its entries is. -/
theorem iff_entries : tree.Proper ↔ (tree.nodes.map Prod.fst).Nodup ∧
    ∀ entry ∈ tree.nodes, entry.1 ≠ [] ∧ (∀ name ∈ entry.1, PlainName name) ∧
      tree.node? entry.1.dropLast = some .directory := by
  constructor
  · intro proper
    refine ⟨proper.distinct, fun entry member => ?_⟩
    have inside := proper.inside entry member
    have held := (proper.node?_eq_some_iff inside).mpr member
    rw [← List.dropLast_append_getLast inside] at held
    exact ⟨inside, proper.plain entry member, proper.parent _ _ _ held⟩
  · rintro ⟨distinct, each⟩
    refine ⟨distinct, fun entry member => (each entry member).1,
      fun entry member => (each entry member).2.1, fun place name node held => ?_⟩
    have member := mem_of_node? (List.concat_ne_nil name place) held
    simpa using (each _ member).2.2

instance (tree : FileTree) : Decidable tree.Proper := decidable_of_iff' _ iff_entries

theorem plain_of_node? (proper : Proper tree) (held : tree.node? place = some node) :
    ∀ name ∈ place, PlainName name := by
  intro name member
  have inside : place ≠ [] := List.ne_nil_of_mem member
  exact proper.plain _ (mem_of_node? inside held) name member

/-- Everything above what is there is a directory. -/
theorem above (proper : Proper tree) (further : names ≠ [])
    (held : tree.node? (place ++ names) = some node) : tree.node? place = some .directory := by
  induction names generalizing place with
  | nil => exact absurd rfl further
  | cons name rest ih =>
    have split : place ++ name :: rest = place ++ [name] ++ rest := by simp
    rw [split] at held
    cases rest with
    | nil => exact proper.parent place name node (by simpa using held)
    | cons next others => exact proper.parent place name _ (ih (List.cons_ne_nil _ _) held)

private theorem parent_directory (proper : Proper tree)
    (held : tree.node? place = some .directory) :
    tree.node? place.dropLast = some .directory := by
  rcases List.eq_nil_or_concat place with rfl | ⟨front, last, rfl⟩
  · exact held
  · rw [List.concat_eq_append] at held ⊢
    rw [List.dropLast_concat]
    exact proper.parent front last _ held

private theorem put (proper : Proper tree) (within : tree.Within place)
    (kept : node = .directory ∨ tree.node? place ≠ some .directory) :
    Proper (tree.put place node) := by
  obtain ⟨parent, name, rfl, plain, directory⟩ := within
  have others : ∀ entry ∈ tree.nodes.filter fun entry => entry.1 != parent ++ [name],
      entry ∈ tree.nodes ∧ entry.1 ≠ parent ++ [name] := fun entry member =>
    ⟨(List.mem_filter.mp member).1, by simpa using (List.mem_filter.mp member).2⟩
  refine ⟨?_, ?_, ?_, ?_⟩
  · refine List.nodup_cons.mpr ⟨fun again => ?_, ?_⟩
    · obtain ⟨entry, member, same⟩ := List.mem_map.mp again
      exact (others entry member).2 same
    · exact proper.distinct.sublist (List.filter_sublist.map _)
  · intro entry member
    rcases List.mem_cons.mp member with rfl | later
    · simp
    · exact proper.inside entry (others entry later).1
  · intro entry member other inside
    rcases List.mem_cons.mp member with rfl | later
    · rcases List.mem_append.mp inside with above | last
      · exact proper.plain_of_node? directory other above
      · rw [List.mem_singleton] at last
        exact last ▸ plain
    · exact proper.plain entry (others entry later).1 other inside
  · intro place last held there
    have inside : parent ++ [name] ≠ [] := by simp
    by_cases here : place ++ [last] = parent ++ [name]
    · have same := (List.append_inj' here rfl).1
      have apart : place ≠ parent ++ [name] := by
        rintro rfl
        have sizes := congrArg List.length same
        simp at sizes
      rw [node?_put_of_ne _ _ apart, same, directory]
    · rw [node?_put_of_ne _ _ here] at there
      have above := proper.parent place last held there
      by_cases around : place = parent ++ [name]
      · rw [around] at above
        rw [around, node?_put _ _ _ inside, kept.resolve_right fun free => free above]
      · rw [node?_put_of_ne _ _ around, above]

/-- Names lead from a directory to a directory or to a place in one. -/
theorem follow_within (proper : Proper tree) (start : tree.node? place = some .directory)
    (plain : ∀ name ∈ names, name ≠ "" ∧ '/' ∉ name.toList)
    (followed : tree.follow place names = .ok found) :
    tree.node? found = some .directory ∨ tree.Within found := by
  induction names generalizing place with
  | nil =>
    cases followed
    exact .inl start
  | cons name rest ih =>
    have below := fun other member => plain other (List.mem_cons_of_mem name member)
    rw [follow_cons start] at followed
    split at followed
    · exact ih start below followed
    · next dotless =>
      split at followed
      · exact ih (proper.parent_directory start) below followed
      · next straight =>
        have here : PlainName name :=
          ⟨(plain name List.mem_cons_self).1, ⟨dotless, straight⟩,
            (plain name List.mem_cons_self).2⟩
        cases rest with
        | nil =>
          cases followed
          exact .inr ⟨place, name, rfl, here, start⟩
        | cons next others => exact ih (directory_of_follow followed) below followed

end Proper

private theorem steps_plain (path : String) :
    ∀ name ∈ steps path, name ≠ "" ∧ '/' ∉ name.toList := by
  intro name member
  obtain ⟨chars, listed, rfl⟩ := List.mem_map.mp member
  obtain ⟨segment, some⟩ := List.mem_filter.mp listed
  refine ⟨fun empty => ?_, fun slash => ?_⟩
  · have none : chars = [] := by simpa using congrArg String.toList empty
    rw [none] at some
    cases some
  · rw [String.toList_ofList] at slash
    have other := splitAt_free segment '/' slash
    cases other

private theorem Proper.locate_within (proper : Proper tree)
    (located : tree.locate path = .ok place) :
    tree.node? place = some .directory ∨ tree.Within place := by
  rw [locate] at located
  split at located
  · cases located
  · exact proper.follow_within rfl (steps_plain path) located

/-! Saving keeps a tree proper. -/

private theorem Proper.makeDirectory {made : FileTree} (proper : Proper tree)
    (ran : tree.makeDirectory path = .ok made) : Proper made := by
  obtain ⟨place, located, none, rfl⟩ := makeDirectory_cases ran
  rcases proper.locate_within located with directory | within
  · rw [none] at directory
    cases directory
  · exact proper.put within (.inl rfl)

private theorem Proper.makeDirectories (proper : Proper tree) (regular : Path.Regular path) :
    Proper (tree.makeDirectories path).1 := by
  induction path, regular using regular_induction with
  | empty => exact proper
  | root => exact proper
  | below path parent closed found _ ih =>
    have makes := makeDirectories_makes tree closed found
    generalize tree.makeDirectories path = result at makes ⊢
    cases makes with
    | itself ran => exact proper.makeDirectory ran
    | there | blocked => exact proper
    | unparented _ failed =>
      rw [failed] at ih
      exact ih
    | last parented ran =>
      rw [parented] at ih
      exact ih.makeDirectory ran
    | met parented =>
      rw [parented] at ih
      exact ih
    | stopped _ parented =>
      rw [parented] at ih
      exact ih

private theorem Proper.write {content : Content} (proper : Proper before)
    (ran : before.write path content = .ok after) : Proper after := by
  obtain ⟨_, place, located, free, rfl⟩ := write_cases ran
  rcases proper.locate_within located with directory | within
  · exact absurd directory free
  · exact proper.put within (.inr free)

/-- Saving at a closed path leaves a tree proper, whether it succeeds or not. -/
theorem Proper.save (proper : Proper tree) (closed : Path.Closed path) (text : String) :
    Proper (tree.save path text).1 := by
  obtain ⟨parent, _, _, found, _, _, _, regular⟩ := steps_closed closed
  have saves := save_saves tree text found
  have made := proper.makeDirectories regular
  generalize tree.save path text = result at saves ⊢
  cases saves with
  | unmade failed =>
    rw [failed] at made
    exact made
  | unwritten parented =>
    rw [parented] at made
    exact made
  | saved parented ran =>
    rw [parented] at made
    exact made.write ran

/-! Files in the way. -/

/-- A file is in the way of a directory: above it, or in its place. -/
inductive Blocked (tree : FileTree) (path : String) : FileError → Prop where
  | above (blocked : tree.locate path = .error .notDirectory) : Blocked tree path .notDirectory
  | itself {standing : Place} (located : tree.locate path = .ok standing)
      (held : tree.node? standing = some (.file content)) : Blocked tree path .exists

private theorem follow_error (failed : tree.follow place names = .error cause) :
    cause = .missing ∨ cause = .notDirectory := by
  induction names generalizing place with
  | nil => cases failed
  | cons name rest ih =>
    rw [follow] at failed
    split at failed
    · cases failed
      exact .inl rfl
    · cases failed
      exact .inr rfl
    · split at failed
      · exact ih failed
      · split at failed
        · exact ih failed
        · exact ih failed

private theorem locate_blocked (kept : before.KeepsKinds after)
    (blocked : before.locate path = .error .notDirectory) :
    after.locate path = .error .notDirectory := by
  rw [locate] at blocked ⊢
  split at blocked
  · cases blocked
  · rw [if_neg ‹_›]
    exact follow_blocked kept blocked

namespace Blocked
variable {cause : FileError}

/-- What is blocked stays blocked as long as files and directories stay what they are. -/
theorem kept (blocked : Blocked before path cause) (kept : before.KeepsKinds after) :
    Blocked after path cause := by
  cases blocked with
  | above blocked => exact .above (locate_blocked kept blocked)
  | itself located held =>
    obtain ⟨content, held⟩ := kept.file held
    exact .itself (locate_kept kept.keepsDirectories located) held

private theorem absent (blocked : Blocked tree path cause) (regular : Path.Regular path) :
    tree.isDirectory path = false := by
  rw [Bool.eq_false_iff]
  intro there
  obtain ⟨place, located, directory⟩ := (isDirectory_iff regular).mp there
  cases blocked with
  | above blocked =>
    rw [located] at blocked
    cases blocked
  | itself locatedFile held =>
    rw [located] at locatedFile
    cases locatedFile
    rw [directory] at held
    cases held

private theorem of_makeDirectory (regular : Path.Regular path)
    (failed : tree.makeDirectory path = .error cause) (blocks : cause ≠ .missing)
    (absent : tree.isDirectory path = false) : Blocked tree path cause := by
  rw [makeDirectory] at failed
  cases located : tree.locate path with
  | error reason =>
    simp only [located, Except.error.injEq] at failed
    subst failed
    have kind : reason = .notDirectory := by
      rw [locate] at located
      split at located
      · exact absurd (Except.error.inj located).symm blocks
      · exact (follow_error located).resolve_left blocks
    subst kind
    exact .above located
  | ok place =>
    cases held : tree.node? place with
    | none => simp [located, held] at failed
    | some node =>
      simp only [located, held, Except.error.injEq] at failed
      subst failed
      cases node with
      | file content => exact .itself located held
      | directory =>
        have there := (isDirectory_iff regular).mpr ⟨place, located, held⟩
        rw [absent] at there
        cases there

/-- Nothing is made where a file is in the way. -/
theorem makeDirectories (blocked : Blocked tree path cause) (regular : Path.Regular path) :
    tree.makeDirectories path = (tree, some cause) := by
  have absent := blocked.absent regular
  rcases regular with rfl | rfl | closed
  · cases blocked with
    | above blocked => cases blocked
    | itself located => cases located
  · cases absent
  · have nonempty : ¬path.isEmpty = true := by simpa using closed_ne_empty closed
    rw [makeDirectories_eq tree (.inr (.inr closed))]
    cases blocked with
    | above blocked => simp [nonempty, FileTree.makeDirectory, blocked, absent]
    | itself located held => simp [nonempty, makeDirectory_exists located held, absent]

/-- What is in the way of a directory is above everything below that. -/
theorem below (blocked : Blocked tree parent cause) (nonempty : path ≠ "")
    (split : steps path = steps parent ++ names) (further : names ≠ []) :
    tree.locate path = .error .notDirectory := by
  rw [locate_of_ne nonempty, split, follow_append]
  cases blocked with
  | above blocked =>
    rw [locate_of_ne (by rintro rfl; cases blocked)] at blocked
    rw [blocked]
    rfl
  | itself located held =>
    rw [locate_of_ne (by rintro rfl; cases located)] at located
    rw [located]
    exact follow_file held further

end Blocked

/-- Without double dots names lead straight down. -/
theorem follow_straight (straight : ".." ∉ names) (followed : tree.follow place names = .ok found) :
    found = place ++ names.filter (· != ".") := by
  induction names generalizing place with
  | nil =>
    cases followed
    simp
  | cons name rest ih =>
    rw [List.mem_cons, not_or] at straight
    obtain ⟨here, below⟩ := straight
    rw [follow_cons (directory_of_follow followed)] at followed
    split at followed
    · next dot => rw [ih below followed, List.filter_cons_of_neg (by simp [dot])]
    · next dot =>
      rw [if_neg fun same => here same.symm] at followed
      rw [ih below followed, List.filter_cons_of_pos (by simpa using dot), List.append_assoc]
      rfl

/-- Without double dots a file is found by going through directories above it, which
are there as long as the file is. -/
theorem Proper.follow_before {made : FileTree} (proper : Proper tree)
    (gains : tree.GainsDirectories made) (straight : ".." ∉ names)
    (followed : made.follow place names = .ok found)
    (held : made.node? found = some (.file content)) : tree.follow place names = .ok found := by
  induction names generalizing place with
  | nil => exact followed
  | cons name rest ih =>
    have reached := directory_of_follow followed
    have spelled := follow_straight straight followed
    have further : (name :: rest).filter (· != ".") ≠ [] := by
      intro none
      rw [spelled, none, List.append_nil, reached] at held
      cases held
    have start := proper.above further (spelled ▸ gains.file held)
    rw [List.mem_cons, not_or] at straight
    obtain ⟨here, below⟩ := straight
    rw [follow_cons reached] at followed
    rw [follow_cons start]
    split at followed
    · next dot => rw [if_pos dot, ih below followed]
    · next dot =>
      have up : name ≠ ".." := fun same => here same.symm
      rw [if_neg up] at followed
      rw [if_neg dot, if_neg up, ih below followed]

theorem directory_located (regular : Path.Regular path)
    (there : path = "" ∨ tree.isDirectory path = true) :
    ∃ place, tree.follow [] (steps path) = .ok place ∧ tree.node? place = some .directory := by
  rcases there with rfl | there
  · exact ⟨[], rfl, rfl⟩
  · obtain ⟨place, located, held⟩ := (isDirectory_iff regular).mp there
    refine ⟨place, ?_, held⟩
    rwa [← locate_of_ne]
    rintro rfl
    cases located

/-- A path leads on from its parent by the name that it ends with. -/
theorem locate_below {dots : List String} (closed : Path.Closed path)
    (split : steps path = steps parent ++ (dots ++ [last])) (each : ∀ dot ∈ dots, dot = ".")
    (straight : last ≠ "..") (followed : tree.follow [] (steps parent) = .ok place)
    (directory : tree.node? place = some .directory) :
    tree.locate path = .ok (if last = "." then place else place ++ [last]) := by
  rw [locate_of_ne (closed_ne_empty closed), split, follow_append, followed]
  show tree.follow place (dots ++ [last]) = _
  rw [follow_append, follow_dots directory each]
  show tree.follow place [last] = _
  rw [follow_cons directory, if_neg straight]
  split <;> rfl

/-- Without double dots nothing but a file in the way keeps directories from being
made, and then nothing is made. -/
theorem Proper.makeDirectories_failed {made : FileTree} (proper : Proper tree)
    (regular : Path.Regular path) (straight : ".." ∉ steps path)
    (ran : tree.makeDirectories path = (made, some cause)) :
    made = tree ∧ Blocked tree path cause := by
  induction path, regular using regular_induction generalizing made cause with
  | empty => cases ran
  | root => cases ran
  | below path parent closed found above ih =>
    obtain ⟨parent', dots, last, found', split, each, _, _⟩ := steps_closed closed
    obtain rfl : parent = parent' := Option.some.inj (found.symm.trans found')
    have straightAbove : ".." ∉ steps parent := fun member =>
      straight (split ▸ List.mem_append_left _ member)
    have straightLast : last ≠ ".." := by
      rintro rfl
      exact straight (by simp [split])
    have makes := makeDirectories_makes tree closed found
    rw [ran] at makes
    cases makes with
    | blocked failed blocks absent =>
      exact ⟨rfl, .of_makeDirectory (.inr (.inr closed)) failed blocks absent⟩
    | unparented missing failed =>
      -- What is in the way of the parent is above the path, so that it is not missing.
      obtain ⟨_, blocked⟩ := ih straightAbove failed
      have through := blocked.below (closed_ne_empty closed) split (by simp)
      rw [FileTree.makeDirectory, through] at missing
      cases missing
    | stopped missing parented failed absent =>
      -- The parent is there now, so a file stands in the place of the directory; but it
      -- stood there before, and the path was not missing.
      obtain ⟨gains, there⟩ := makeDirectories_gains tree above
      rw [parented] at gains there
      obtain ⟨place, followed, directory⟩ := directory_located above (there rfl)
      have located := locate_below closed split each straightLast followed directory
      have blocks : cause ≠ .missing := by
        rintro rfl
        simp only [FileTree.makeDirectory, located] at failed
        split at failed <;> cases failed
      cases Blocked.of_makeDirectory (.inr (.inr closed)) failed blocks absent with
      | above through =>
        rw [located] at through
        cases through
      | itself stands held =>
        rw [locate_of_ne (closed_ne_empty closed)] at stands
        have before := proper.follow_before gains straight stands held
        rw [← locate_of_ne (closed_ne_empty closed)] at before
        rw [makeDirectory_exists before (gains.file held)] at missing
        cases missing

end ApiScribe.FileTree
