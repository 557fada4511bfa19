import ApiScribe.Proofs.Text.Trimming
import Mathlib.Data.List.Basic

/-! Texts of several lines. What a text shows is what its lines show, and trimming leaves the
lines from the first one to the last one that show something. -/
namespace ApiScribe.Text

variable {line text first kept : List Char} {before rest after : List (List Char)}

/-! What a text shows. -/

/-- The characters that a text shows. -/
def shownChars (text : List Char) : List Char := text.filter fun c => !isBlank c

/-- A text shows nothing exactly if it is blank. -/
theorem shownChars_eq_nil_iff : shownChars text = [] ↔ Blank text := by
  simp [shownChars, Blank]

private theorem shownChars_append (front rest : List Char) :
    shownChars (front ++ rest) = shownChars front ++ shownChars rest := List.filter_append ..

theorem shownChars_of_blank (blank : Blank text) : shownChars text = [] :=
  shownChars_eq_nil_iff.mpr blank

/-- The blanks that a text begins with are blank. -/
theorem blank_takeWhile (text : List Char) : Blank (text.takeWhile isBlank) :=
  fun _ member => List.mem_takeWhile_imp member

/-- Only blanks are cut off at the end of a text. -/
theorem trimEnd_cut (text : List Char) : ∃ more, Blank more ∧ trimEnd text ++ more = text := by
  refine ⟨(text.reverse.takeWhile isBlank).reverse, fun c member => ?_, ?_⟩
  · exact blank_takeWhile _ c (List.mem_reverse.mp member)
  · rw [trimEnd, ← List.reverse_append, List.takeWhile_append_dropWhile, List.reverse_reverse]

private theorem shownChars_trimEnd (text : List Char) :
    shownChars (trimEnd text) = shownChars text := by
  obtain ⟨more, blank, whole⟩ := trimEnd_cut text
  rw [← whole, shownChars_append, shownChars_of_blank blank, List.append_nil, whole]

/-- Trimming the start takes off the leading blanks alone. -/
theorem takeWhile_append_trimStart (text : List Char) :
    text.takeWhile isBlank ++ trimStart text = text := List.takeWhile_append_dropWhile

/-- Trimming takes nothing away that a text shows. -/
theorem shownChars_trim (text : List Char) : shownChars (trim text) = shownChars text := by
  have whole := congrArg shownChars (takeWhile_append_trimStart text)
  rwa [shownChars_append, shownChars_of_blank (blank_takeWhile text), List.nil_append,
    ← shownChars_trimEnd, ← trim] at whole

/-- What ends a line shows nothing. -/
theorem flatMap_shownChars_lines (text : List Char) :
    (lines text).flatMap shownChars = shownChars text := by
  fun_induction lines text with
  | case1 => rfl
  | case2 rest ih => simpa [shownChars, isBlank, within, blanks] using ih
  | case3 rest ih => simpa [shownChars, isBlank, within, blanks] using ih
  | case4 c rest _ _ none ih =>
    rw [none] at ih
    have nothing : shownChars rest = [] := ih.symm
    have behind := shownChars_append [c] rest
    rw [nothing, List.append_nil] at behind
    rw [List.flatMap_singleton]
    exact behind.symm
  | case5 c rest _ _ line others whole ih =>
    rw [whole, List.flatMap_cons] at ih
    rw [List.flatMap_cons, ← List.singleton_append, shownChars_append, List.append_assoc, ih,
      ← shownChars_append, List.singleton_append]

/-- Joined lines show what each of them shows, since a line feed shows nothing. -/
theorem shownChars_joined (lines : List (List Char)) :
    shownChars (joined ['\n'] lines) = lines.flatMap shownChars := by
  induction lines with
  | nil => rfl
  | cons first others ih =>
    cases others with
    | nil => simp [joined]
    | cons second others =>
      rw [joined_cons_cons, shownChars_append, shownChars_append, ih, List.flatMap_cons]
      simp [shownChars, isBlank, within, blanks]

/-! The ends of texts. -/

/-- A text that does not end in a blank. -/
def EndsSolid (text : List Char) : Prop := ∀ c ∈ text.getLast?, isBlank c = false

/-- A text trimmed at its end does not end in a blank. -/
theorem endsSolid_trimEnd (text : List Char) : EndsSolid (trimEnd text) := by
  intro c last
  rw [trimEnd, List.getLast?_reverse] at last
  have solid := List.head?_dropWhile_not isBlank text.reverse
  rwa [Option.mem_def.mp last] at solid

theorem endsSolid_trim (text : List Char) : EndsSolid (trim text) := endsSolid_trimEnd _

private theorem trimEnd_of_endsSolid (solid : EndsSolid text) : trimEnd text = text := by
  rcases text.eq_nil_or_concat' with rfl | ⟨front, c, rfl⟩
  · rfl
  · have last : isBlank c = false := solid c (by simp)
    rw [trimEnd, List.reverse_concat, List.dropWhile_cons_of_neg (by simp [last]),
      List.reverse_cons, List.reverse_reverse]

private theorem trim_of_endsSolid (solid : EndsSolid text) : trim text = trimStart text := by
  refine trimEnd_of_endsSolid fun c last => solid c ?_
  have some : trimStart text ≠ [] := by
    rintro none
    rw [none] at last
    cases last
  rw [← takeWhile_append_trimStart text, List.getLast?_append_of_ne_nil _ some]
  exact last

/-- Blanks before a text make no difference. -/
theorem trim_blank_append {front : List Char} (blank : Blank front) (text : List Char) :
    trim (front ++ text) = trim text := by
  rw [trim, trimStart, List.dropWhile_append_of_pos blank, trim, trimStart]

/-- Trimming the end first makes no difference to trimming. -/
theorem trim_trimEnd (text : List Char) : trim (trimEnd text) = trim text := by
  obtain ⟨more, blank, whole⟩ := trimEnd_cut text
  rw [← trim_append_blank blank, whole]

/-- Two lines that are trimmed to the same text both show something, or neither does. -/
theorem Shown.of_trim_eq (shown : Shown line) (same : trim kept = trim line) : Shown kept := by
  refine (blank_or_shown kept).resolve_left fun blank => trim_ne_nil shown ?_
  rw [← same, trim_of_blank blank]

/-- Trimming the end hides nothing of a line that shows something. -/
theorem shown_trimEnd (shown : Shown text) : Shown (trimEnd text) :=
  shown.of_trim_eq (trim_trimEnd text)

/-! Texts of several lines. -/

/-- Joining loses no character of a line. -/
theorem mem_joined_of_mem {c : Char} {separator : List Char} {lines : List (List Char)}
    (listed : line ∈ lines) (member : c ∈ line) : c ∈ joined separator lines := by
  induction lines with
  | nil => cases listed
  | cons first others ih =>
    rcases List.mem_cons.mp listed with rfl | later
    · exact mem_joined_head member
    · rw [joined_cons_of_ne_nil _ _ (List.ne_nil_of_mem later)]
      exact List.mem_append_right _ (ih later)

/-- Blank lines are blank together. -/
theorem blank_joined {lines : List (List Char)} (blank : ∀ line ∈ lines, Blank line) :
    Blank (joined ['\n'] lines) := by
  intro c member
  rcases mem_joined member with feed | ⟨line, listed, inside⟩
  · rw [List.mem_singleton.mp feed]
    rfl
  · exact blank line listed c inside

/-- Blank lines before and behind others make no difference. -/
theorem trim_joined_between (above : ∀ line ∈ before, Blank line) (some : rest ≠ [])
    (below : ∀ line ∈ after, Blank line) :
    trim (joined ['\n'] (before ++ (rest ++ after))) = trim (joined ['\n'] rest) := by
  have feed : Blank ['\n'] := by decide
  have behind : trim (joined ['\n'] (rest ++ after)) = trim (joined ['\n'] rest) := by
    cases after with
    | nil => rw [List.append_nil]
    | cons first others =>
      rw [joined_append some (List.cons_ne_nil _ _), List.append_assoc,
        trim_append_blank fun c member => ?_]
      exact (List.mem_append.mp member).elim (feed c) (blank_joined below c)
  cases before with
  | nil => exact behind
  | cons first others =>
    rw [joined_append (List.cons_ne_nil _ _) (by simp [some]), trim_blank_append fun c member => ?_]
    · exact behind
    · exact (List.mem_append.mp member).elim (blank_joined above c) (feed c)

private theorem getLast?_joined_concat {separator final : List Char} (some : final ≠ [])
    (others : List (List Char)) :
    (joined separator (others ++ [final])).getLast? = final.getLast? := by
  cases others with
  | nil => rfl
  | cons first others =>
    rw [joined_append (List.cons_ne_nil _ _) (List.cons_ne_nil _ _)]
    exact List.getLast?_append_of_ne_nil _ some

/-- Lines of which the first one and the last one show something are trimmed at the
beginning of the first one alone. -/
theorem trim_joined_solid (shown : Shown first) (solid : ∀ line ∈ first :: rest, EndsSolid line)
    (last : ∀ line ∈ rest.getLast?, Shown line) :
    trim (joined ['\n'] (first :: rest)) = joined ['\n'] (trim first :: rest) := by
  rcases rest.eq_nil_or_concat' with rfl | ⟨others, final, rfl⟩
  · rfl
  · have some : others ++ [final] ≠ [] := by simp
    obtain ⟨c, listed, _⟩ := last final (by simp)
    have ends : EndsSolid (joined ['\n'] (first :: (others ++ [final]))) := by
      rw [EndsSolid, ← List.cons_append, getLast?_joined_concat (List.ne_nil_of_mem listed)]
      exact solid final (by simp)
    obtain ⟨start, begins⟩ := trimStart_shown shown
    have alone := begins []
    rw [List.append_nil, List.append_nil] at alone
    rw [trim_of_endsSolid ends, trim_of_endsSolid (solid first List.mem_cons_self),
      joined_cons_of_ne_nil _ _ some, joined_cons_of_ne_nil _ _ some, List.append_assoc, begins,
      alone, List.append_assoc]

/-- Lines from the first one to the last one that show something, with the blank lines above
and below them. -/
structure ShownLines (lines before : List (List Char)) (first : List Char)
    (rest after : List (List Char)) : Prop where
  whole : lines = before ++ first :: (rest ++ after)
  above : ∀ line ∈ before, Blank line
  first : Shown first
  last : ∀ line ∈ rest.getLast?, Shown line
  below : ∀ line ∈ after, Blank line

/-- Lines of which one shows something have a first and a last one that do. -/
theorem exists_shownLines {lines : List (List Char)} (some : ∃ line ∈ lines, Shown line) :
    ∃ before first rest after, ShownLines lines before first rest after := by
  have tail (lines : List (List Char)) : ∃ rest after, lines = rest ++ after ∧
      (∀ line ∈ rest.getLast?, Shown line) ∧ ∀ line ∈ after, Blank line := by
    induction lines with
    | nil => exact ⟨[], [], rfl, by simp, by simp⟩
    | cons line others ih =>
      obtain ⟨rest, after, rfl, last, below⟩ := ih
      rcases rest with _ | ⟨second, rest⟩
      · rcases blank_or_shown line with blank | shown
        · exact ⟨[], line :: after, rfl, by simp, List.forall_mem_cons.mpr ⟨blank, below⟩⟩
        · exact ⟨[line], after, rfl, by simpa using shown, below⟩
      · exact ⟨line :: second :: rest, after, rfl, by rwa [List.getLast?_cons_cons], below⟩
  induction lines with
  | nil => simp at some
  | cons line others ih =>
    rcases blank_or_shown line with blank | shown
    · have later : ∃ line ∈ others, Shown line := by
        obtain ⟨found, listed, shown⟩ := some
        rcases List.mem_cons.mp listed with rfl | later
        · exact absurd blank shown.not_blank
        · exact ⟨found, later, shown⟩
      obtain ⟨before, first, rest, after, found⟩ := ih later
      exact ⟨line :: before, first, rest, after, congrArg (line :: ·) found.whole,
        List.forall_mem_cons.mpr ⟨blank, found.above⟩, found.first, found.last, found.below⟩
    · obtain ⟨rest, after, rfl, last, below⟩ := tail others
      exact ⟨[], line, rest, after, rfl, by simp, shown, last, below⟩

end ApiScribe.Text
