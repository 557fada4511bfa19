import ApiScribe.Proofs.Text.Marks
import ApiScribe.Proofs.Web.Paths
import Mathlib.Data.List.DropRight

/-! Paths below paths. A path is put behind what is left of another one without its last
slashes, be that a path, a row of slashes or nothing at all. So it makes no difference where
a chain of paths is joined first, and the root adds nothing on either side of it. -/
namespace ApiScribe.Route
open Text

variable {base path : List Char}

/-- A path that begins with exactly one slash and ends with exactly one, which may be the
same one. -/
structure OneSlash (path : List Char) : Prop where
  first : ∃ rest, path = '/' :: rest ∧ rest.head? ≠ some '/'
  last : ∃ front, path = front ++ ['/'] ∧ front.getLast? ≠ some '/'

/-- A path with a slash at either end and no two slashes in a row. -/
structure Clean (path : List Char) : Prop where
  slashed : Slashed path
  single : ¬ ['/', '/'] <:+: path

private theorem dropTrailing_eq (c : Char) (text : List Char) :
    dropTrailing c text = text.rdropWhile (· == c) := rfl

/-- What has lost its last slashes loses no more of them for what stands behind it. -/
theorem dropTrailing_append (c : Char) (front rest : List Char) :
    dropTrailing c (dropTrailing c front ++ rest) =
      dropTrailing c front ++ dropTrailing c rest := by
  simp only [dropTrailing_eq]
  induction rest using List.reverseRecOn with
  | nil => rw [List.append_nil, List.rdropWhile_nil, List.append_nil, List.rdropWhile_idempotent]
  | append_singleton rest last ih =>
    rw [← List.append_assoc]
    by_cases drops : (last == c) = true
    · rw [List.rdropWhile_concat_pos (· == c) _ _ drops, List.rdropWhile_concat_pos (· == c) _ _ drops, ih]
    · rw [List.rdropWhile_concat_neg (· == c) _ _ drops, List.rdropWhile_concat_neg (· == c) _ _ drops,
        List.append_assoc]

private theorem join_assoc (first second third : List Char) :
    join (join first second) third = join first (join second third) := by
  simp only [join_eq, dropTrailing_append, List.append_assoc]

private theorem root_join (path : List Char) : join ['/'] path = path := by
  rw [join, if_pos (.inr rfl)]

/-- A path that ends with one slash loses that and no other. -/
theorem dropTrailing_slash {front : List Char} (last : front.getLast? ≠ some '/') :
    dropTrailing '/' (front ++ ['/']) = front := by
  rw [dropTrailing_eq, List.rdropWhile_concat_pos _ _ _ rfl, List.rdropWhile_eq_self_iff]
  intro some same
  rw [List.getLast?_eq_some_getLast some, eq_of_beq same] at last
  exact last rfl

private theorem join_root (path : OneSlash base) : join base ['/'] = base := by
  obtain ⟨front, rfl, last⟩ := path.last
  rw [join_eq, dropTrailing_slash last]

/-- What stands in front of the last slash of a clean path does not end in a slash. -/
theorem Clean.front {front : List Char} (clean : Clean (front ++ ['/'])) :
    front.getLast? ≠ some '/' := by
  intro last
  obtain ⟨others, rfl⟩ := List.getLast?_eq_some_iff.mp last
  exact clean.single ⟨others, [], by simp⟩

private theorem Clean.oneSlash (clean : Clean path) : OneSlash path := by
  obtain ⟨rest, begins⟩ := List.head?_eq_some_iff.mp clean.slashed.1
  obtain ⟨front, ends⟩ := List.getLast?_eq_some_iff.mp clean.slashed.2
  refine ⟨⟨rest, begins, fun head => ?_⟩, ⟨front, ends, (ends ▸ clean).front⟩⟩
  obtain ⟨others, rfl⟩ := List.head?_eq_some_iff.mp head
  exact clean.single ⟨[], others, by rw [begins]; rfl⟩

/-- The last slash of the one path is the first of the other, so the paths meet in it. -/
theorem Clean.join (clean : Clean base) (cleanToo : Clean path) : Clean (join base path) := by
  obtain ⟨front, rfl⟩ := List.getLast?_eq_some_iff.mp clean.slashed.2
  obtain ⟨rest, rfl⟩ := List.head?_eq_some_iff.mp cleanToo.slashed.1
  refine ⟨slashed_join (fun c head => ?_) cleanToo.slashed, ?_⟩
  · rw [clean.slashed.1] at head
    exact (Option.some.inj head).symm
  · rw [join_eq, dropTrailing_slash clean.front, not_doubled_iff, List.isChain_split]
    exact ⟨(not_doubled_iff _ _).mp clean.single, (not_doubled_iff _ _).mp cleanToo.single⟩

/-- Paths form a monoid under joining: it is associative, on all texts, the root is its unit
for the paths with one slash at either end, and it keeps paths clean. -/
theorem join_monoid :
    (∀ first second third, join (join first second) third = join first (join second third)) ∧
      (∀ path, OneSlash path → join ['/'] path = path ∧ join path ['/'] = path) ∧
      ∀ base path, Clean base → Clean path → Clean (join base path) :=
  ⟨join_assoc, fun path one => ⟨root_join path, join_root one⟩, fun _ _ => Clean.join⟩

/-- Two paths of a project: the root adds nothing to the first, and the second stays clean
below it. -/
theorem users_below_api :
    Clean "/api/".toList ∧ Clean "/users/".toList ∧ OneSlash "/api/".toList ∧
      (join ['/'] "/api/".toList = "/api/".toList ∧ join "/api/".toList ['/'] = "/api/".toList) ∧
      join "/api/".toList "/users/".toList = "/api/users/".toList ∧
      Clean (join "/api/".toList "/users/".toList) := by
  have api : Clean "/api/".toList := ⟨⟨rfl, rfl⟩, by decide⟩
  have users : Clean "/users/".toList := ⟨⟨rfl, rfl⟩, by decide⟩
  obtain ⟨_, unit, clean⟩ := join_monoid
  exact ⟨api, users, api.oneSlash, unit _ api.oneSlash, rfl, clean _ _ api users⟩

end ApiScribe.Route
