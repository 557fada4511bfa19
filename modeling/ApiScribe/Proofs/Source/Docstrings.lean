import ApiScribe.Proofs.Text.ShownLines
import ApiScribe.Source.Docstring
import Mathlib.Data.List.Forall2

/-! Cleaned docstrings. Cleaning takes away blanks alone: what a docstring shows is all
there, in the same order. The lines from the first one to the last one that show something
are kept, each line behind the first keeps its offset from the others, and blanks stand
neither at the ends of the text nor at the end of a line of it. -/
namespace ApiScribe.Source
open Text
open ApiScribe.Expr (Tight)

variable {raw line first : List Char} {others before rest after : List (List Char)} {count : Nat}

/-! Margins. -/

private theorem indentation_drop (inside : count ≤ indentation line) :
    indentation (line.drop count) + count = indentation line := by
  induction count generalizing line with
  | zero => rfl
  | succ count ih =>
    cases line with
    | nil => exact absurd inside (Nat.not_succ_le_zero count)
    | cons c rest =>
      rw [indentation, List.takeWhile_cons] at inside
      split at inside
      · next blank =>
        have behind := ih (Nat.le_of_succ_le_succ inside)
        have further : indentation (c :: rest) = indentation rest + 1 := by
          rw [indentation, List.takeWhile_cons_of_pos blank]
          rfl
        rw [List.drop_succ_cons, further, ← behind, Nat.add_assoc]
      · exact absurd inside (Nat.not_succ_le_zero count)

/-- Blanks at the end do not count where a line shows something. -/
theorem indentation_trimEnd (shown : Shown line) :
    indentation (trimEnd line) = indentation line := by
  obtain ⟨more, _, whole⟩ := trimEnd_cut line
  obtain ⟨c, member, solid⟩ := shown_trimEnd shown
  have partly : ¬ ((trimEnd line).takeWhile isBlank).length = (trimEnd line).length := by
    intro all
    have same := (List.takeWhile_prefix isBlank).eq_of_length all
    rw [← same] at member
    rw [blank_takeWhile _ c member] at solid
    cases solid
  have same := congrArg indentation whole
  rwa [indentation, List.takeWhile_append, if_neg partly] at same

/-- The margin is no more than what a line with something on it is indented by. -/
theorem margin_le (listed : line ∈ others) (shown : Shown line) :
    margin others ≤ indentation line := by
  have counted : indentation line ∈
      (others.filter fun line => !isBlankLine line).map indentation := by
    refine List.mem_map_of_mem (List.mem_filter.mpr ⟨listed, ?_⟩)
    obtain ⟨c, member, solid⟩ := shown
    simpa [isBlankLine] using ⟨c, member, solid⟩
  rw [margin]
  cases least : ((others.filter fun line => !isBlankLine line).map indentation).min? with
  | none => exact absurd counted (by simp [List.min?_eq_none_iff.mp least])
  | some count => exact (List.min?_eq_some_iff.mp least).2 _ counted

private theorem endsSolid_cleanLine (count : Nat) (line : List Char) :
    EndsSolid (cleanLine count line) :=
  endsSolid_trimEnd _

/-- Only blanks are taken from the ends of a line. -/
theorem trim_cleanLine (count : Nat) (line : List Char) :
    trim (cleanLine count line) = trim line := by
  have cut : Blank (line.take (min count (indentation line))) := by
    intro c member
    have inside : line.take (min count (indentation line)) <+: line.takeWhile isBlank :=
      List.prefix_of_prefix_length_le (List.take_prefix _ _) (List.takeWhile_prefix _)
        (Nat.le_trans (List.length_take_le _ _) (Nat.min_le_right _ _))
    exact blank_takeWhile line c (inside.subset member)
  have whole := congrArg trim (List.take_append_drop (min count (indentation line)) line)
  rwa [trim_blank_append cut, ← trim_trimEnd, ← cleanLine] at whole

/-- A line that shows something loses the margin, if it is indented by that much. -/
theorem indentation_cleanLine (shown : Shown line) (inside : count ≤ indentation line) :
    indentation (cleanLine count line) + count = indentation line := by
  rw [cleanLine, Nat.min_eq_left inside]
  have behind : Shown (line.drop count) := by
    refine shown.of_trim_eq ?_
    rw [← trim_trimEnd, ← trim_cleanLine count line, cleanLine, Nat.min_eq_left inside]
  rw [indentation_trimEnd behind, indentation_drop inside]

/-! Docstrings. -/

/-- Lines that show the same texts one by one, with the same offsets of their beginnings from
each other. -/
structure SameLayout (lines kept : List (List Char)) : Prop where
  texts : List.Forall₂ (fun line kept => trim kept = trim line) lines kept
  offsets : ∀ one ∈ lines.zip kept, ∀ two ∈ lines.zip kept, Shown one.1 → Shown two.1 →
    (indentation one.2 : Int) - indentation two.2 = indentation one.1 - indentation two.1

/-- `text` is what is left of the docstring `raw`. -/
structure Cleaned (raw text : List Char) : Prop where
  /-- All that the docstring shows is there, in order. -/
  shows : shownChars text = shownChars raw
  /-- No blank stands at either end. -/
  tight : Tight text
  /-- No line ends in a blank. -/
  ended : ∀ line ∈ splitAt (· == '\n') text, EndsSolid line
  /-- Lines are left out only above and below those that show something, and the lines
  behind the first of these keep their layout. -/
  layout : ∃ before first rest after below, ShownLines (Text.lines raw) before first rest after ∧
    splitAt (· == '\n') text = trim first :: below ∧ SameLayout rest below

private theorem cleanLine_subset (count : Nat) (line : List Char) : cleanLine count line ⊆ line :=
  List.Subset.trans (trimEnd_begins _).subset (List.drop_subset _ _)

private theorem shownChars_cleanLine (count : Nat) (line : List Char) :
    shownChars (cleanLine count line) = shownChars line := by
  rw [← shownChars_trim, trim_cleanLine, shownChars_trim]

/-- Lines that all lose one margin keep their layout. -/
theorem sameLayout_clean (inside : ∀ line ∈ rest, Shown line → count ≤ indentation line) :
    SameLayout rest (rest.map (cleanLine count)) where
  texts := List.forall₂_map_right_iff.mpr
    (List.forall₂_same.mpr fun line _ => trim_cleanLine count line)
  offsets := by
    have moved {pair : List Char × List Char}
        (paired : pair ∈ rest.zip (rest.map (cleanLine count))) (shown : Shown pair.1) :
        indentation pair.2 + count = indentation pair.1 := by
      have pairs := List.zip_map' (f := id) (g := cleanLine count) (l := rest)
      rw [List.map_id] at pairs
      rw [pairs] at paired
      obtain ⟨line, listed, rfl⟩ := List.mem_map.mp paired
      exact indentation_cleanLine shown (inside line listed shown)
    intro one paired two paired' shown shown'
    have one_moved := moved paired shown
    have two_moved := moved paired' shown'
    omega

private theorem blank_map_cleanLine (blank : ∀ line ∈ rest, Blank line) :
    ∀ line ∈ rest.map (cleanLine count), Blank line := by
  intro cleaned listed c member
  obtain ⟨line, line_of, rfl⟩ := List.mem_map.mp listed
  exact blank line line_of c (cleanLine_subset count line member)

section Lines
variable {kept : List Char} {cleaned above below : List (List Char)}

/-- Of cleaned lines only those from the first one to the last one that show something are
left, and the first of these loses what it begins with. -/
theorem trim_joined_clean (shown : Shown kept) (solid : EndsSolid kept)
    (last : ∀ line ∈ rest.getLast?, Shown line) (blank : ∀ line ∈ above, Blank line)
    (blank' : ∀ line ∈ below, Blank line) :
    trim (joined ['\n'] (above ++ kept :: (rest.map (cleanLine count) ++ below))) =
      joined ['\n'] (trim kept :: rest.map (cleanLine count)) := by
  rw [← List.cons_append, trim_joined_between blank (List.cons_ne_nil _ _) blank']
  refine trim_joined_solid shown (List.forall_mem_cons.mpr ⟨solid, ?_⟩) ?_
  · intro cleaned listed
    obtain ⟨line, _, rfl⟩ := List.mem_map.mp listed
    exact endsSolid_cleanLine count line
  · intro cleaned final
    rw [List.getLast?_map] at final
    obtain ⟨line, final_of, rfl⟩ := Option.map_eq_some_iff.mp final
    exact (last line final_of).of_trim_eq (trim_cleanLine count line)

/-- The cleaned lines are the lines of the cleaned text. -/
theorem splitAt_clean (unbroken : ∀ line ∈ first :: rest, '\n' ∉ line) :
    splitAt (· == '\n') (joined ['\n'] (trim first :: rest.map (cleanLine count))) =
      trim first :: rest.map (cleanLine count) := by
  refine splitAt_joined (List.forall_mem_cons.mpr ⟨?_, fun cleaned listed => ?_⟩)
    (List.cons_ne_nil _ _)
  · rintro c member rfl
    exact unbroken first List.mem_cons_self (trim_subset first member)
  · obtain ⟨line, line_of, rfl⟩ := List.mem_map.mp listed
    rintro c member rfl
    exact unbroken line (List.mem_cons_of_mem first line_of) (cleanLine_subset count line member)

private theorem shownChars_clean :
    shownChars (joined ['\n'] (trim first :: rest.map (cleanLine count))) =
      (first :: rest).flatMap shownChars := by
  rw [shownChars_joined, List.flatMap_cons, List.flatMap_cons, shownChars_trim, List.flatMap_map]
  exact congrArg _ (congrArg (List.flatMap · rest) (funext (shownChars_cleanLine count)))

/-- Lines that show nothing add nothing to what a text shows. -/
theorem shownChars_of_lines (found : ShownLines (Text.lines raw) before first rest after) :
    shownChars raw = (first :: rest).flatMap shownChars := by
  have nothing {lines : List (List Char)} (blank : ∀ line ∈ lines, Blank line) :
      lines.flatMap shownChars = [] :=
    List.flatMap_eq_nil_iff.mpr fun line listed => shownChars_of_blank (blank line listed)
  rw [← flatMap_shownChars_lines raw, found.whole, ← List.cons_append, List.flatMap_append,
    List.flatMap_append, nothing found.above, nothing found.below, List.nil_append,
    List.append_nil]

/-- The first line of all has no margin, so the first line that shows something is cleaned in
one of two ways, which come to the same text. -/
theorem cleaned_joined (found : ShownLines (Text.lines raw) before first rest after)
    (lines_of : cleaned = above ++ kept :: (rest.map (cleanLine count) ++ below))
    (blank : ∀ line ∈ above, Blank line) (same : trim kept = trim first) (solid : EndsSolid kept)
    (blank' : ∀ line ∈ below, Blank line)
    (inside : ∀ line ∈ rest, Shown line → count ≤ indentation line) :
    Cleaned raw (trim (joined ['\n'] cleaned)) := by
  have text : trim (joined ['\n'] cleaned) =
      joined ['\n'] (trim first :: rest.map (cleanLine count)) := by
    rw [lines_of, ← same]
    exact trim_joined_clean (found.first.of_trim_eq same) solid found.last blank blank'
  have unbroken : ∀ line ∈ first :: rest, '\n' ∉ line := fun line listed =>
    lines_unbroken (found.whole ▸ List.mem_append_right _ (List.mem_append_left after listed))
  rw [text]
  refine ⟨shownChars_clean.trans (shownChars_of_lines found).symm, ?_, ?_, before, first, rest,
    after, _, found, splitAt_clean unbroken, sameLayout_clean inside⟩
  · rw [← text, lines_of]
    obtain ⟨c, member, visible⟩ := found.first
    refine tight_trim (trim_ne_nil ⟨c, ?_, visible⟩)
    have listed : c ∈ kept := trim_subset kept (same ▸ mem_trim visible member)
    exact mem_joined_of_mem (List.mem_append_right _ List.mem_cons_self) listed
  · rw [splitAt_clean unbroken]
    refine List.forall_mem_cons.mpr ⟨endsSolid_trim first, fun cleaned listed => ?_⟩
    obtain ⟨line, _, rfl⟩ := List.mem_map.mp listed
    exact endsSolid_cleanLine count line

end Lines

private theorem blank_iff_lines : Blank raw ↔ ∀ line ∈ Text.lines raw, Blank line := by
  rw [← shownChars_eq_nil_iff, ← flatMap_shownChars_lines, List.flatMap_eq_nil_iff]
  exact forall₂_congr fun line _ => shownChars_eq_nil_iff

private theorem exists_shown_line (shown : Shown raw) : ∃ line ∈ Text.lines raw, Shown line := by
  by_contra none
  refine shown.not_blank (blank_iff_lines.mpr fun line listed => ?_)
  exact (blank_or_shown line).resolve_right fun shows => none ⟨line, listed, shows⟩

/-- The text of a docstring is what its cleaned lines are trimmed to. -/
theorem cleanDocstring?_of_lines (whole : Text.lines raw = first :: others) :
    cleanDocstring? raw =
      if trim (joined ['\n'] (trim first :: others.map (cleanLine (margin others)))) = [] then none
      else some (trim (joined ['\n'] (trim first :: others.map (cleanLine (margin others))))) := by
  rw [cleanDocstring?, whole]
  simp only
  split
  · next empty => rw [if_pos empty]
  · next c rest some => rw [some, if_neg (List.cons_ne_nil c rest)]

private theorem cleanDocstring?_of_blank (blank : Blank raw) : cleanDocstring? raw = none := by
  cases whole : Text.lines raw with
  | nil => rw [cleanDocstring?, whole]
  | cons first others =>
    have empty := blank_iff_lines.mp blank
    rw [whole, List.forall_mem_cons] at empty
    rw [cleanDocstring?_of_lines whole, if_pos (trim_of_blank (blank_joined ?_))]
    exact List.forall_mem_cons.mpr
      ⟨fun c member => empty.1 c (trim_subset first member), blank_map_cleanLine empty.2⟩

/-- A docstring that shows something is cleaned to a text. -/
theorem exists_cleaned (shown : Shown raw) :
    ∃ text, cleanDocstring? raw = some text ∧ Cleaned raw text := by
  obtain ⟨before, first, rest, after, found⟩ := exists_shownLines (exists_shown_line shown)
  have whole := found.whole
  have some {text : List Char} (cleaned : Cleaned raw text)
      (read : cleanDocstring? raw = if text = [] then none else some text) :
      ∃ text, cleanDocstring? raw = some text ∧ Cleaned raw text :=
    ⟨text, by rw [read, if_neg cleaned.tight.ne_nil], cleaned⟩
  cases before with
  | nil =>
    have parts : trim first :: (rest ++ after).map (cleanLine (margin (rest ++ after))) =
        [] ++ trim first :: (rest.map (cleanLine (margin (rest ++ after))) ++
          after.map (cleanLine (margin (rest ++ after)))) := by
      rw [List.map_append, List.nil_append]
    refine some (cleaned_joined found parts (List.forall_mem_nil _) ?_ (endsSolid_trim first)
      (blank_map_cleanLine found.below) ?_) (cleanDocstring?_of_lines whole)
    · exact (tight_trim (trim_ne_nil found.first)).trim
    · exact fun line listed => margin_le (List.mem_append_left after listed)
  | cons top before =>
    let count := margin (before ++ first :: (rest ++ after))
    have parts : trim top :: (before ++ first :: (rest ++ after)).map (cleanLine count) =
        (trim top :: before.map (cleanLine count)) ++ cleanLine count first ::
          (rest.map (cleanLine count) ++ after.map (cleanLine count)) := by
      rw [List.map_append, List.map_cons, List.map_append, List.cons_append]
    obtain ⟨top_blank, above⟩ := List.forall_mem_cons.mp found.above
    refine some (cleaned_joined found parts ?_ (trim_cleanLine count first)
      (endsSolid_cleanLine count first) (blank_map_cleanLine found.below) ?_)
      (cleanDocstring?_of_lines whole)
    · exact List.forall_mem_cons.mpr
        ⟨fun c member => top_blank c (trim_subset top member), blank_map_cleanLine above⟩
    · exact fun line listed => margin_le (List.mem_append_right before
        (List.mem_cons_of_mem first (List.mem_append_left after listed)))

/-- There is a text exactly where a docstring shows something, and it is the docstring
without its layout. -/
theorem docstrings_cleaned (raw : List Char) :
    ((cleanDocstring? raw).isSome ↔ Shown raw) ∧
      ∀ text ∈ cleanDocstring? raw, Cleaned raw text := by
  rcases blank_or_shown raw with blank | shown
  · rw [cleanDocstring?_of_blank blank]
    exact ⟨⟨nofun, fun shown => absurd blank shown.not_blank⟩, nofun⟩
  · obtain ⟨text, read, cleaned⟩ := exists_cleaned shown
    rw [read]
    exact ⟨⟨fun _ => shown, fun _ => rfl⟩, fun found same => Option.some.inj same ▸ cleaned⟩

/-- Ideographic blanks take three bytes each and count as one character. -/
def wideMargin : List Char :=
  "Summary\n\u3000\u3000\u00a0deep\r\n\n  shallow \n ".toList

theorem wide_margin_cleaned :
    cleanDocstring? wideMargin = some "Summary\n\u00a0deep\n\nshallow".toList ∧
      Shown wideMargin ∧ Cleaned wideMargin "Summary\n\u00a0deep\n\nshallow".toList := by
  have read : cleanDocstring? wideMargin = some "Summary\n\u00a0deep\n\nshallow".toList := by
    decide
  exact ⟨read, (docstrings_cleaned wideMargin).1.mp (by rw [read]; rfl),
    (docstrings_cleaned wideMargin).2 _ read⟩

end ApiScribe.Source
