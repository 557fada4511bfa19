import ApiScribe.Proofs.Expr.Scanning
import Mathlib.Data.List.TakeWhile

/-! Texts of one line. A text that begins with no blank shows something on its first line,
and no line holds a line feed, so its lines can be put together to a single one. -/
namespace ApiScribe.Text

variable {c : Char} {text line more segment separator : List Char} {segments : List (List Char)}

/-- A text that shows something and holds no line feed. -/
structure OneLine (text : List Char) : Prop where
  shown : ∃ c ∈ text, isBlank c = false
  unbroken : '\n' ∉ text

instance (text : List Char) : Decidable (OneLine text) :=
  decidable_of_iff ((text.any fun c => !isBlank c) = true ∧ '\n' ∉ text)
    ⟨fun line => ⟨by simpa using line.1, line.2⟩,
      fun line => ⟨by simpa using line.shown, line.unbroken⟩⟩

namespace OneLine

theorem append (line : OneLine text) (unbroken : '\n' ∉ more) : OneLine (text ++ more) where
  shown := by
    obtain ⟨c, member, solid⟩ := line.shown
    exact ⟨c, List.mem_append_left more member, solid⟩
  unbroken member := (List.mem_append.mp member).elim line.unbroken unbroken

end OneLine

/-! Trimming. -/

private theorem trimStart_subset (text : List Char) : trimStart text ⊆ text :=
  List.dropWhile_subset isBlank

theorem trimEnd_begins (text : List Char) : trimEnd text <+: text := by
  have tail := (List.dropWhile_suffix isBlank (l := text.reverse)).reverse
  rwa [List.reverse_reverse] at tail

theorem trim_subset (text : List Char) : trim text ⊆ text :=
  List.Subset.trans (trimEnd_begins _).subset (trimStart_subset text)

/-- What does not satisfy a predicate is not dropped with what does. -/
theorem mem_dropWhile {drops : Char → Bool} (other : drops c = false) (member : c ∈ text) :
    c ∈ text.dropWhile drops := by
  rw [← List.takeWhile_append_dropWhile (p := drops) (l := text)] at member
  refine (List.mem_append.mp member).resolve_left fun front => ?_
  rw [List.mem_takeWhile_imp front] at other
  cases other

private theorem mem_trimStart (solid : isBlank c = false) (member : c ∈ text) :
    c ∈ trimStart text :=
  mem_dropWhile solid member

/-- What a text shows is kept. -/
theorem mem_trim (solid : isBlank c = false) (member : c ∈ text) : c ∈ trim text :=
  List.mem_reverse.mpr
    (mem_trimStart solid (List.mem_reverse.mpr (mem_trimStart solid member)))

private theorem solid_of_head? (head : (text.dropWhile isBlank).head? = some c) :
    isBlank c = false := by
  have solid := List.head?_dropWhile_not isBlank text
  rwa [head] at solid

/-- What is left of a text without the blanks at its ends is tight. -/
theorem tight_trim (some : trim text ≠ []) : Expr.Tight (trim text) where
  first := by
    obtain ⟨c, rest, whole⟩ := List.exists_cons_of_ne_nil some
    obtain ⟨back, before⟩ := trimEnd_begins (trimStart text)
    refine ⟨c, by rw [whole]; rfl, @solid_of_head? c text ?_⟩
    rw [show text.dropWhile isBlank = c :: rest ++ back from whole ▸ before.symm]
    rfl
  last := by
    refine ⟨(trim text).getLast some, List.getLast?_eq_some_getLast some, ?_⟩
    refine @solid_of_head? _ (trimStart text).reverse ?_
    rw [← List.getLast?_reverse]
    exact List.getLast?_eq_some_getLast some

theorem mem_joined (member : c ∈ joined separator segments) :
    c ∈ separator ∨ ∃ segment ∈ segments, c ∈ segment := by
  induction segments with
  | nil => cases member
  | cons first others ih =>
    cases others with
    | nil => exact .inr ⟨first, List.mem_cons_self, member⟩
    | cons second rest =>
      rw [joined_cons_cons, List.mem_append, List.mem_append] at member
      rcases member with (here | between) | later
      · exact .inr ⟨first, List.mem_cons_self, here⟩
      · exact .inl between
      · exact (ih later).imp id fun ⟨segment, listed, inside⟩ =>
          ⟨segment, List.mem_cons_of_mem first listed, inside⟩

theorem mem_joined_head (member : c ∈ segment) :
    c ∈ joined separator (segment :: segments) := by
  cases segments with
  | nil => exact member
  | cons second rest => exact List.mem_append_left _ (List.mem_append_left _ member)

/-- Lines end where the line feeds are. -/
theorem lines_unbroken (member : line ∈ lines text) : '\n' ∉ line := by
  fun_induction lines text generalizing line with
  | case1 => cases member
  | case2 rest ih =>
    rcases List.mem_cons.mp member with rfl | later
    · exact List.not_mem_nil
    · exact ih later
  | case3 rest ih =>
    rcases List.mem_cons.mp member with rfl | later
    · exact List.not_mem_nil
    · exact ih later
  | case4 c rest plain _ _ _ =>
    rw [List.mem_singleton.mp member, List.mem_singleton]
    exact fun feed => plain feed.symm
  | case5 c rest plain _ segment others whole ih =>
    rw [whole] at ih
    rcases List.mem_cons.mp member with rfl | later
    · rw [List.mem_cons, not_or]
      exact ⟨fun feed => plain feed.symm, ih List.mem_cons_self⟩
    · exact ih (List.mem_cons_of_mem segment later)

/-- A text that begins with no blank has its beginning on its first line. -/
theorem lines_begin (solid : isBlank c = false) (rest : List Char) :
    ∃ line others, lines (c :: rest) = (c :: line) :: others := by
  have feed : c ≠ '\n' := by
    rintro rfl
    cases solid
  have carriage : c ≠ '\r' := by
    rintro rfl
    cases solid
  rw [lines.eq_4 c rest feed fun _ same _ => carriage same]
  split
  · exact ⟨[], [], rfl⟩
  · exact ⟨_, _, rfl⟩

/-- A cut leaves the beginning of a text where it is, unless the mark is there. -/
theorem cutAt?_begin {mark rest front back : List Char} (other : dropHead? mark (c :: rest) = none)
    (cut : cutAt? mark (c :: rest) = some (front, back)) : ∃ more, front = c :: more := by
  rw [cutAt?, other] at cut
  obtain ⟨⟨before, after⟩, _, same⟩ := Option.map_eq_some_iff.mp cut
  cases same
  exact ⟨before, rfl⟩

/-- The lines of a paragraph make one line, and what the paragraph begins with is on it. -/
theorem oneLine_paragraph (solid : isBlank c = false) (rest : List Char) :
    OneLine (joined [' '] ((lines (c :: rest)).map trim)) where
  shown := by
    obtain ⟨line, others, whole⟩ := lines_begin solid rest
    rw [whole, List.map_cons]
    exact ⟨c, mem_joined_head (mem_trim solid List.mem_cons_self), solid⟩
  unbroken member := by
    rcases mem_joined member with between | ⟨segment, listed, inside⟩
    · exact absurd between (by decide)
    · obtain ⟨line, line_of, rfl⟩ := List.mem_map.mp listed
      exact lines_unbroken line_of (trim_subset line inside)

end ApiScribe.Text
