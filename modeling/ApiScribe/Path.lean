import ApiScribe.Text.Cut

/-! Paths by their parts. Two spellings of a path that differ in doubled
slashes or inner dots have the same parts; a leading dot is a part of its own.
Everything that compares or takes apart a path goes through its parts, while
the spelling is kept for what is printed. -/
namespace ApiScribe.Path
open Text

/-- A part of a path with the place of its characters in the spelling. -/
structure Part where
  text : List Char
  start : Nat
  stop : Nat
  deriving DecidableEq, Repr

private def placed (start : Nat) : List (List Char) → List Part
  | [] => []
  | segment :: rest =>
    ⟨segment, start, start + segment.length⟩ :: placed (start + segment.length + 1) rest

/-- The parts of a path from the root downwards. -/
def parts (path : List Char) : List Part :=
  let root := if path.head? = some '/' then [⟨['/'], 0, 1⟩] else []
  root ++ (placed 0 (splitAt (· == '/') path)).filter fun part =>
    !part.text.isEmpty && (part.text != ['.'] || part.start == 0)

/-- The parts as texts, by which paths are compared. -/
def names (path : String) : List String :=
  (parts path.toList).map fun part => String.ofList part.text

def same (left right : String) : Bool := names left == names right

/-- The name that a path ends in. A root, a dot and a double dot name nothing. -/
def name? (path : String) : Option String :=
  match (names path).getLast? with
  | some name => if name == "/" || name == "." || name == ".." then none else some name
  | none => none

/-- The name before and after its last point. A point at the beginning belongs
to the name. -/
def cutName (name : String) : String × Option String :=
  let reversed := name.toList.reverse
  let tail := reversed.takeWhile (· ≠ '.')
  match reversed.drop tail.length with
  | _ :: front@(_ :: _) => (String.ofList front.reverse, some (String.ofList tail.reverse))
  | _ => (name, none)

/-- The name of a file without its extension. -/
def stem? (path : String) : Option String := (name? path).map fun name => (cutName name).1

def extension? (path : String) : Option String := (name? path).bind fun name => (cutName name).2

/-- The path without its last part. A root has no parent, and that of a bare
name is the empty path. -/
def parent? (path : String) : Option String :=
  match (parts path.toList).reverse with
  | [] => none
  | [only] => if only.text = ['/'] then none else some ""
  | _ :: above :: _ => some (String.ofList (path.toList.take above.stop))

/-! How a path is made of segments, and its parent of the first of them. -/

/-- What stands between the slashes of a path. -/
def segments (path : String) : List (List Char) := splitAt (· == '/') path.toList

/-- A path that ends with a name of its own, or is a lone dot. -/
def Closed (path : String) : Prop :=
  ∃ front last, segments path = front ++ [last] ∧ last ≠ [] ∧ (last = ['.'] → front = [])

/-- A path that directories may be made for. -/
def Regular (path : String) : Prop := path = "" ∨ path = "/" ∨ Closed path

private theorem placed_texts (start : Nat) (segments : List (List Char)) :
    (placed start segments).map Part.text = segments := by
  induction segments generalizing start with
  | nil => rfl
  | cons segment rest ih => rw [placed, List.map_cons, ih]

private theorem placed_concat (start : Nat) (front : List (List Char)) (last : List Char) :
    ∃ part, placed start (front ++ [last]) = placed start front ++ [part] ∧ part.text = last ∧
      (front = [] → part.start = start) := by
  induction front generalizing start with
  | nil => exact ⟨_, rfl, rfl, fun _ => rfl⟩
  | cons segment others ih =>
    obtain ⟨part, whole, text, _⟩ := ih (start + segment.length + 1)
    refine ⟨part, ?_, text, fun none => by cases none⟩
    rw [List.cons_append, placed, whole, placed, List.cons_append]

/-- Up to where a segment stops, a text is that of the segments so far. -/
private theorem placed_stop {start : Nat} {segments : List (List Char)} {front rest : List Part}
    {part : Part} (split : placed start segments = front ++ part :: rest) :
    part.stop = part.start + part.text.length ∧
      part.stop = start + (joined ['/'] (front.map Part.text ++ [part.text])).length := by
  induction front generalizing start segments with
  | nil =>
    cases segments with
    | nil => cases split
    | cons segment others =>
      cases split
      exact ⟨rfl, rfl⟩
  | cons first front ih =>
    cases segments with
    | nil => cases split
    | cons segment others =>
      obtain ⟨rfl, below⟩ := List.cons.inj split
      obtain ⟨width, stop⟩ := ih below
      refine ⟨width, ?_⟩
      rw [stop, List.map_cons, List.cons_append, joined_cons_of_ne_nil _ _ (by simp)]
      simp only [List.length_append, List.length_singleton]
      omega

private def isPart (part : Part) : Bool :=
  !part.text.isEmpty && (part.text != ['.'] || part.start == 0)

private theorem unreal_text {part : Part} (unreal : ¬isPart part = true) :
    part.text = [] ∨ part.text = ['.'] := by
  cases empty : part.text.isEmpty with
  | true => exact .inl (by simpa using empty)
  | false =>
    simp only [isPart, empty, Bool.not_false, Bool.true_and, Bool.or_eq_true, not_or,
      bne_iff_ne, ne_eq, Decidable.not_not] at unreal
    exact .inr unreal.1

/-- Where a part ends, the segments up to its own end; a dot is a part at the beginning only. -/
private theorem placed_split {segments : List (List Char)} {front rest : List Part} {part : Part}
    (placing : placed 0 segments = front ++ part :: rest) (real : isPart part = true) :
    segments = front.map Part.text ++ part.text :: rest.map Part.text ∧
      part.stop = (joined ['/'] (front.map Part.text ++ [part.text])).length ∧
      part.text ≠ [] ∧ (part.text = ['.'] → front.map Part.text = []) := by
  obtain ⟨width, stop⟩ := placed_stop placing
  have texts := placed_texts 0 segments
  rw [placing, List.map_append, List.map_cons] at texts
  rw [isPart, Bool.and_eq_true] at real
  refine ⟨texts.symm, by simpa using stop, by simpa using real.1, fun dot => ?_⟩
  have first : part.start = 0 := by simpa [dot] using real.2
  refine Decidable.byContradiction fun some => ?_
  rw [joined_append some (List.cons_ne_nil _ _)] at stop
  simp only [List.length_append, List.length_singleton, joined] at stop
  omega

/-- A path that has a part: where the last one ends, the parts of its text end. -/
private theorem placed_last {segments : List (List Char)} {shown : List Part} {last : Part}
    (parts : (placed 0 segments).filter isPart = shown ++ [last]) :
    ∃ front dots, segments = front ++ last.text :: dots ∧
      last.stop = (joined ['/'] (front ++ [last.text])).length ∧
      last.text ≠ [] ∧ (last.text = ['.'] → front = []) ∧ ∀ dot ∈ dots, dot = [] ∨ dot = ['.'] := by
  obtain ⟨before, after, whole, _, ends⟩ := List.filter_eq_append_iff.mp parts
  obtain ⟨between, rest, split, _, real, none⟩ := List.filter_eq_cons_iff.mp ends
  have placing : placed 0 segments = (before ++ between) ++ last :: rest := by
    rw [whole, split, List.append_assoc]
  obtain ⟨texts, stop, nonempty, dotted⟩ := placed_split placing real
  refine ⟨_, _, texts, stop, nonempty, dotted, fun dot member => ?_⟩
  obtain ⟨part, listed, rfl⟩ := List.mem_map.mp member
  exact unreal_text (List.filter_eq_nil_iff.mp none part listed)

/-- A path up to the end of one of its segments. -/
private theorem segments_take {path : String} {front rest : List (List Char)} {text : List Char}
    (whole : segments path = front ++ text :: rest) :
    let upTo := joined ['/'] (front ++ [text])
    path.toList.take upTo.length = upTo ∧ segments (String.ofList upTo) = front ++ [text] := by
  have begins : joined ['/'] (front ++ [text]) <+: path.toList := by
    rw [← joined_splitAt '/' path.toList]
    rw [segments] at whole
    cases rest with
    | nil => exact ⟨[], by rw [whole, List.append_nil]⟩
    | cons next others =>
      have some : front ++ [text] ≠ [] := by simp
      rw [whole, List.append_cons front text (next :: others),
        joined_append some (List.cons_ne_nil _ _), List.append_assoc]
      exact List.prefix_append _ _
  refine ⟨(List.prefix_iff_eq_take.mp begins).symm, ?_⟩
  rw [segments, String.toList_ofList]
  refine splitAt_joined (fun segment member c inside => ?_) (by simp)
  have listed : segment ∈ splitAt (· == '/') path.toList := by
    rw [segments] at whole
    rw [whole, List.append_cons]
    exact List.mem_append_left _ member
  simpa using splitAt_free listed c inside

private theorem parts_eq (path : List Char) :
    parts path = (if path.head? = some '/' then [⟨['/'], 0, 1⟩] else []) ++
      (placed 0 (splitAt (· == '/') path)).filter isPart := rfl

/-- The parts of a closed path end with its last name. -/
private theorem parts_closed {path : List Char} {front : List (List Char)} {last : List Char}
    (whole : splitAt (· == '/') path = front ++ [last]) (nonempty : last ≠ [])
    (dotted : last = ['.'] → front = []) :
    ∃ part, part.text = last ∧ parts path =
      (if path.head? = some '/' then [⟨['/'], 0, 1⟩] else []) ++
        (placed 0 front).filter isPart ++ [part] := by
  obtain ⟨part, placing, named, first⟩ := placed_concat 0 front last
  have real : isPart part = true := by
    rw [isPart, named, Bool.and_eq_true, Bool.or_eq_true]
    refine ⟨by simpa using nonempty, ?_⟩
    by_cases dot : last = ['.']
    · exact .inr (by simpa using first (dotted dot))
    · exact .inl (by simpa using dot)
  refine ⟨part, named, ?_⟩
  rw [parts_eq, whole, placing, List.filter_append, List.filter_cons_of_pos real, List.filter_nil,
    List.append_assoc]

/-- A path is called after its last segment, if that is a name. -/
theorem name?_segments {path : String} {front : List (List Char)} {last : List Char}
    (whole : segments path = front ++ [last]) (nonempty : last ≠ [])
    (dotless : last ≠ ['.'] ∧ last ≠ ['.', '.']) : name? path = some (String.ofList last) := by
  obtain ⟨part, named, parts⟩ := parts_closed whole nonempty fun dot => absurd dot dotless.1
  have other (text : String) (apart : last ≠ text.toList) : (String.ofList last == text) = false := by
    rw [beq_eq_false_iff_ne]
    rintro rfl
    simp at apart
  have slash : last ≠ ['/'] := by
    rintro rfl
    have inside : ['/'] ∈ segments path := by simp [whole]
    have free := splitAt_free inside '/' (List.mem_singleton_self _)
    cases free
  rw [name?, names, parts, List.map_append, List.map_singleton, List.getLast?_concat, named]
  simp [other "/" slash, other "." dotless.1, other ".." dotless.2]

/-- The segments that are names, inner dots included. -/
def walked (path : String) : List (List Char) :=
  (segments path).filter fun segment => !segment.isEmpty

private theorem walked_dots {dots : List (List Char)}
    (each : ∀ dot ∈ dots, dot = [] ∨ dot = ['.']) :
    ∀ dot ∈ dots.filter fun segment => !segment.isEmpty, dot = ['.'] := by
  intro dot member
  obtain ⟨listed, some⟩ := List.mem_filter.mp member
  rcases each dot listed with rfl | same
  · cases some
  · exact same

section Above
variable {path : String} {front : List (List Char)} {last : List Char}
  (whole : segments path = front ++ [last])
include whole

private theorem segmented_text : joined ['/'] (front ++ [last]) = path.toList := by
  rw [← whole]
  exact joined_splitAt '/' path.toList

private theorem segmented_free : ∀ segment ∈ front ++ [last], ∀ c ∈ segment, c ≠ '/' := by
  intro segment member c inside
  have other := splitAt_free (whole ▸ member) c inside
  simpa using other

private theorem walked_segmented (nonempty : last ≠ []) :
    walked path = (front.filter fun segment => !segment.isEmpty) ++ [last] := by
  have kept : ([last].filter fun segment => !segment.isEmpty) = [last] :=
    List.filter_cons_of_pos (by simpa using nonempty)
  rw [walked, whole, List.filter_append, kept]

/-- Below the root alone: what stands between the root and the name are dots. -/
private theorem above_root (nonempty : last ≠ []) (rooted : path.toList.head? = some '/')
    (alone : (placed 0 front).filter isPart = []) :
    (∀ dot ∈ front, dot = [] ∨ dot = ['.']) ∧ "/".length < path.length := by
  obtain ⟨rest, chars⟩ := List.head?_eq_some_iff.mp rooted
  have text := segmented_text whole
  have fronts : front ≠ [] := by
    rintro rfl
    have first : '/' ∈ last := by
      have whole : last = '/' :: rest := text.trans chars
      rw [whole]
      exact List.mem_cons_self
    exact segmented_free whole last (by simp) '/' first rfl
  refine ⟨fun dot member => ?_, ?_⟩
  · rw [← placed_texts 0 front] at member
    obtain ⟨part, listed, rfl⟩ := List.mem_map.mp member
    exact unreal_text (List.filter_eq_nil_iff.mp alone part listed)
  · have long := List.length_pos_iff.mpr nonempty
    rw [joined_append fronts (List.cons_ne_nil _ _)] at text
    have size : path.length = path.toList.length := String.length_toList.symm
    rw [size, ← text]
    simp only [List.length_append, List.length_singleton, joined]
    show 1 < _
    omega

/-- A first segment that is no part is empty, so the path would begin with a slash. -/
private theorem above_nothing (unrooted : ¬path.toList.head? = some '/')
    (alone : (placed 0 front).filter isPart = []) : front = [] := by
  cases front with
  | nil => rfl
  | cons first others =>
    have unreal := List.filter_eq_nil_iff.mp alone ⟨first, 0, 0 + first.length⟩ List.mem_cons_self
    have empty : first = [] := by simpa [isPart] using unreal
    have text := segmented_text whole
    rw [List.cons_append, joined_cons_of_ne_nil _ _ (by simp), empty] at text
    exact absurd (text ▸ rfl) unrooted

/-- Below another name: up to that one the path is a closed path itself. -/
private theorem above_name {shown : List Part} {above : Part}
    (split : (placed 0 front).filter isPart = shown ++ [above]) :
    ∃ before dots, front = before ++ above.text :: dots ∧
      segments (String.ofList (path.toList.take above.stop)) = before ++ [above.text] ∧
      above.text ≠ [] ∧ (above.text = ['.'] → before = []) ∧
      (∀ dot ∈ dots, dot = [] ∨ dot = ['.']) ∧
      (String.ofList (path.toList.take above.stop)).length < path.length := by
  obtain ⟨before, dots, fronts, stop, nonempty, dotted, each⟩ := placed_last split
  have segmented : segments path = before ++ above.text :: (dots ++ [last]) := by
    rw [whole, fronts, List.append_assoc, List.cons_append]
  obtain ⟨upTo, cut⟩ := segments_take segmented
  rw [← stop] at upTo
  refine ⟨before, dots, fronts, by rw [upTo, cut], nonempty, dotted, each, ?_⟩
  have joints : path.toList =
      joined ['/'] (before ++ [above.text]) ++ (['/'] ++ joined ['/'] (dots ++ [last])) := by
    have lower : dots ++ [last] ≠ [] := by simp
    rw [← segmented_text whole, ← whole, segmented, List.append_cons,
      joined_append (by simp) lower, List.append_assoc]
  rw [String.length_ofList, upTo, ← String.length_toList, joints]
  simp only [List.length_append, List.length_singleton]
  omega

end Above

/-- A closed path has a parent, which is shorter and has the same names but for
the last one and dots before it. -/
theorem parent?_closed {path : String} (closed : Closed path) :
    ∃ parent dots last, parent? path = some parent ∧
      walked path = walked parent ++ dots ++ [last] ∧ (∀ dot ∈ dots, dot = ['.']) ∧
      parent.length < path.length ∧ Regular parent := by
  obtain ⟨front, last, whole, nonempty, dotted⟩ := closed
  have names := walked_segmented whole nonempty
  obtain ⟨part, named, parts⟩ := parts_closed whole nonempty dotted
  rw [parent?, parts, List.reverse_concat]
  -- What comes before the last part: nothing, the root alone, or another name.
  rcases List.eq_nil_or_concat ((placed 0 front).filter isPart) with alone | ⟨shown, above, split⟩
  · rw [alone, List.append_nil]
    by_cases rooted : path.toList.head? = some '/'
    · obtain ⟨dots, longer⟩ := above_root whole nonempty rooted alone
      obtain ⟨rest, chars⟩ := List.head?_eq_some_iff.mp rooted
      have root : String.ofList (path.toList.take 1) = "/" := by
        rw [chars]
        rfl
      rw [if_pos rooted]
      exact ⟨"/", front.filter _, last, congrArg some root, names, walked_dots dots, longer,
        .inr (.inl rfl)⟩
    · obtain rfl := above_nothing whole rooted alone
      have only : part.text ≠ ['/'] := by
        intro slash
        exact segmented_free whole last (by simp) '/' (by simp [← named, slash]) rfl
      rw [if_neg rooted]
      refine ⟨"", [], last, if_neg only, names, by simp, ?_, .inl rfl⟩
      have size : path.length = path.toList.length := String.length_toList.symm
      rw [size, ← segmented_text whole]
      exact List.length_pos_iff.mpr nonempty
  · rw [List.concat_eq_append] at split
    obtain ⟨before, dots, fronts, parents, nonemptyAbove, dottedAbove, each, shorter⟩ :=
      above_name whole split
    rw [split, ← List.append_assoc, List.reverse_concat]
    refine ⟨_, dots.filter _, last, rfl, ?_, walked_dots each, shorter,
      .inr (.inr ⟨before, above.text, parents, nonemptyAbove, dottedAbove⟩)⟩
    rw [names, walked_segmented parents nonemptyAbove, fronts, List.filter_append,
      List.filter_cons_of_pos (by simpa using nonemptyAbove)]
    simp

/-- Whatever a path is, directories may be made for its parent. -/
theorem parent?_regular {path parent : String} (found : parent? path = some parent) :
    Regular parent := by
  rw [parent?] at found
  split at found
  · cases found
  · obtain ⟨_, same⟩ := Option.ite_none_left_eq_some.mp found
    exact .inl (Option.some.inj same).symm
  · next last above others reversed =>
    cases found
    have listed : above ∈ parts path.toList := List.mem_reverse.mp (by simp [reversed])
    rw [parts_eq] at listed
    rcases List.mem_append.mp listed with root | shown
    · split at root
      · next rooted =>
        obtain ⟨rest, chars⟩ := List.head?_eq_some_iff.mp rooted
        rw [List.mem_singleton.mp root, chars]
        exact .inr (.inl rfl)
      · cases root
    · obtain ⟨member, real⟩ := List.mem_filter.mp shown
      obtain ⟨front, rest, placing⟩ := List.append_of_mem member
      obtain ⟨texts, stop, nonempty, dotted⟩ := placed_split placing real
      have whole : segments path = _ := texts
      obtain ⟨upTo, cut⟩ := segments_take whole
      rw [← stop] at upTo
      exact .inr (.inr ⟨_, _, by rw [upTo, cut], nonempty, dotted⟩)

/-- A path below a directory. An absolute one stays as it is. -/
def join (directory path : String) : String :=
  if startsWith path "/" || directory.isEmpty then path
  else if endsWith directory "/" then directory ++ path
  else directory ++ "/" ++ path

private def dropSame : List Part → List Part → Option (List Part)
  | rest, [] => some rest
  | [], _ :: _ => none
  | part :: rest, base :: others =>
    if part.text = base.text then dropSame rest others else none

/-- The spelling of a path from below a directory on, if it lies there. -/
def below? (directory path : String) : Option String :=
  (dropSame (parts path.toList) (parts directory.toList)).map fun rest =>
    match rest.head?, rest.getLast? with
    | some first, some last =>
      String.ofList ((path.toList.drop first.start).take (last.stop - first.start))
    | _, _ => ""

end ApiScribe.Path
