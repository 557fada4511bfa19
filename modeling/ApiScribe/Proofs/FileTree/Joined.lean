import ApiScribe.Proofs.FileTree.Proper

/-! Paths below a directory. A plain name that is joined to a path is the last
segment of it and the last name that it goes through, so what stands at a place
is found under the path that is joined from its names. -/
namespace ApiScribe.FileTree

variable {tree : FileTree} {place : Place} {root directory name : String} {names : List String}

private theorem PlainName.segment (plain : PlainName name) :
    name.toList ≠ [] ∧ name.toList ≠ ['.'] ∧ name.toList ≠ ['.', '.'] := by
  refine ⟨?_, ?_, ?_⟩
  · simpa using plain.nonempty
  · exact fun same => plain.dotless.1 (String.toList_inj.mp same)
  · exact fun same => plain.dotless.2 (String.toList_inj.mp same)

/-- A plain name is a segment of its own behind those of the directory. -/
theorem segments_join (directory : String) (plain : PlainName name) :
    ∃ front, Path.segments (Path.join directory name) = front ++ [name.toList] ∧
      (front.filter fun segment => !segment.isEmpty) =
        (Path.segments directory).filter fun segment => !segment.isEmpty := by
  have alone : Text.splitAt (· == '/') name.toList = [name.toList] := by
    refine Text.splitAt_of_none fun c member => ?_
    have other : c ≠ '/' := fun slash => plain.whole (slash ▸ member)
    simpa using other
  have relative : Text.startsWith name "/" = false := by
    rw [Bool.eq_false_iff]
    intro rooted
    exact plain.whole ((List.isPrefixOf_iff_prefix.mp rooted).subset List.mem_cons_self)
  rw [Path.join, relative, Bool.false_or]
  by_cases empty : directory.isEmpty = true
  · rw [if_pos empty]
    refine ⟨[], by rw [Path.segments, alone, List.nil_append], ?_⟩
    obtain rfl : directory = "" := by simpa using empty
    rfl
  · rw [if_neg empty]
    by_cases closed : Text.endsWith directory "/" = true
    · rw [if_pos closed]
      obtain ⟨front, whole⟩ := List.isSuffixOf_iff_suffix.mp closed
      refine ⟨Text.splitAt (· == '/') front, ?_, ?_⟩
      · rw [Path.segments, String.toList_append, ← whole, List.append_assoc]
        refine (Text.splitAt_append (by rfl) front _).trans ?_
        exact congrArg (Text.splitAt (· == '/') front ++ ·) alone
      · have cut : Path.segments directory = Text.splitAt (· == '/') front ++ [[]] := by
          rw [Path.segments, ← whole]
          exact Text.splitAt_append (by rfl) front []
        rw [cut, List.filter_append]
        simp
    · rw [if_neg closed]
      refine ⟨Path.segments directory, ?_, rfl⟩
      rw [Path.segments, String.toList_append, String.toList_append, List.append_assoc]
      refine (Text.splitAt_append (by rfl) directory.toList _).trans ?_
      exact congrArg (Text.splitAt (· == '/') directory.toList ++ ·) alone

theorem closed_join (directory : String) (plain : PlainName name) :
    Path.Closed (Path.join directory name) := by
  obtain ⟨front, whole, _⟩ := segments_join directory plain
  obtain ⟨nonempty, dotless, _⟩ := plain.segment
  exact ⟨front, name.toList, whole, nonempty, fun dot => absurd dot dotless⟩

private theorem name?_join (directory : String) (plain : PlainName name) :
    Path.name? (Path.join directory name) = some name := by
  obtain ⟨front, whole, _⟩ := segments_join directory plain
  obtain ⟨nonempty, dotless⟩ := plain.segment
  rw [Path.name?_segments whole nonempty dotless, String.ofList_toList]

/-- The extension of what lies below a directory is that of its last name. -/
theorem extension?_joined (path : String) (some : names ≠ [])
    (plain : ∀ name ∈ names, PlainName name) :
    Path.extension? (names.foldl Path.join path) =
      names.getLast?.bind fun name => (Path.cutName name).2 := by
  obtain ⟨front, last, rfl⟩ := (List.eq_nil_or_concat' names).resolve_left some
  rw [List.foldl_append, List.foldl_cons, List.foldl_nil, Path.extension?,
    name?_join _ (plain last (by simp)), List.getLast?_concat]

private theorem steps_segments (path : String) :
    steps path = ((Path.segments path).filter fun segment => !segment.isEmpty).map String.ofList := rfl

theorem steps_join (directory : String) (plain : PlainName name) :
    steps (Path.join directory name) = steps directory ++ [name] := by
  obtain ⟨front, whole, same⟩ := segments_join directory plain
  have kept : [name.toList].filter (fun segment => !segment.isEmpty) = [name.toList] :=
    List.filter_cons_of_pos (by simpa using plain.segment.1)
  rw [steps_segments, steps_segments, whole, List.filter_append, same, kept, List.map_append,
    List.map_singleton, String.ofList_toList]

theorem steps_joined (directory : String) (plain : ∀ name ∈ names, PlainName name) :
    steps (names.foldl Path.join directory) = steps directory ++ names := by
  induction names generalizing directory with
  | nil => simp
  | cons name rest ih =>
    rw [List.foldl_cons, ih _ fun other member => plain other (List.mem_cons_of_mem _ member),
      steps_join directory (plain name List.mem_cons_self), List.append_assoc]
    rfl

/-- Different names below a directory are spelled differently. -/
theorem joined_injective {others : List String} (plain : ∀ name ∈ names, PlainName name)
    (othersPlain : ∀ name ∈ others, PlainName name)
    (same : names.foldl Path.join directory = others.foldl Path.join directory) :
    names = others := by
  have steps := congrArg steps same
  rw [steps_joined directory plain, steps_joined directory othersPlain] at steps
  exact List.append_cancel_left steps

/-- What is there is found by its names. -/
theorem Proper.follow_plain (proper : Proper tree) (plain : ∀ name ∈ names, PlainName name)
    (held : tree.node? (place ++ names) = some node) :
    tree.follow place names = .ok (place ++ names) := by
  induction names generalizing place with
  | nil => simp [follow]
  | cons name rest ih =>
    have dotless := (plain name List.mem_cons_self).dotless
    have split : place ++ name :: rest = place ++ [name] ++ rest := by simp
    rw [follow_cons (proper.above (List.cons_ne_nil _ _) held), if_neg dotless.1, if_neg dotless.2]
    rw [split] at held ⊢
    exact ih (fun other member => plain other (List.mem_cons_of_mem _ member)) held

private theorem look_located (look : tree.look root = .ok (place, node)) :
    tree.locate (if Text.endsWith root "/" then root ++ "." else root) = .ok place := by
  rw [FileTree.look] at look
  cases located : tree.locate (if Text.endsWith root "/" then root ++ "." else root) with
  | error cause => simp [located] at look
  | ok found =>
    cases held : tree.node? found with
    | none => simp [located, held] at look
    | some other =>
      simp only [located, held, Except.ok.injEq, Prod.mk.injEq] at look
      rw [look.1]

/-- A dot behind a closing slash is one more name. -/
theorem steps_dotted (closed : Text.endsWith root "/" = true) :
    steps (root ++ ".") = steps root ++ ["."] := by
  obtain ⟨front, whole⟩ := List.isSuffixOf_iff_suffix.mp closed
  have upTo : Path.segments root = Text.splitAt (· == '/') front ++ [[]] := by
    rw [Path.segments, ← whole]
    exact Text.splitAt_append (by rfl) front []
  have further : Path.segments (root ++ ".") = Text.splitAt (· == '/') front ++ [['.']] := by
    rw [Path.segments, String.toList_append, ← whole, List.append_assoc]
    exact Text.splitAt_append (by rfl) front ['.']
  rw [steps_segments, steps_segments, upTo, further]
  simp

/-- A path that is looked at leads to what is found, whether or not it ends with a
slash. -/
theorem look_followed (look : tree.look root = .ok (place, .directory)) :
    tree.follow [] (steps root) = .ok place := by
  have located := look_located look
  have some : (if Text.endsWith root "/" then root ++ "." else root) ≠ "" := by
    intro none
    rw [none] at located
    cases located
  rw [locate_of_ne some] at located
  by_cases closed : Text.endsWith root "/" = true
  · rw [if_pos closed, steps_dotted closed, follow_append] at located
    cases upTo : tree.follow [] (steps root) with
    | error cause =>
      rw [upTo] at located
      cases located
    | ok reached =>
      rw [upTo] at located
      have last : tree.follow reached ["."] = .ok place := located
      rw [follow_cons (directory_of_follow last), if_pos rfl] at last
      rw [← last]
      rfl
  · rwa [if_neg closed] at located

end ApiScribe.FileTree
