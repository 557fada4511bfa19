import ApiScribe.Proofs.Text.Trimming
import ApiScribe.Source.Line

/-! Reading of logical lines, one step after the other. What a step does depends on
the next character alone, but for a backslash, which asks for the one behind it. -/
namespace ApiScribe.Source
open Text ApiScribe.Expr

namespace Draft
variable {draft next : Draft} {c : Char} {text rest more : List Char}

theorem lines_nil (draft : Draft) : draft.lines [] = draft.finish := by
  rw [lines.eq_def]

/-- A comment is passed over up to its line feed. -/
theorem lines_comment (draft : Draft) (rest : List Char) :
    draft.lines ('#' :: rest) = draft.lines (rest.dropWhile (· ≠ '\n')) := by
  rw [lines.eq_def]
  rfl

/-- A literal is taken as a whole, with the line ends in it. -/
theorem lines_literal (quote : isQuote c = true) (draft : Draft) (rest : List Char) :
    draft.lines (c :: rest) =
      ((draft.push (c :: (literalTail c rest).1)).advance (c :: (literalTail c rest).1)).lines
        (literalTail c rest).2 := by
  have other : c ≠ '#' := by
    rintro rfl
    cases quote
  rw [lines.eq_def]
  simp only
  rw [if_neg other, if_pos quote]

/-- An opening bracket is kept, and lines go on inside of it. -/
theorem lines_opening (opens : isOpening c = true) (draft : Draft) (rest : List Char) :
    draft.lines (c :: rest) =
      Draft.lines { draft.push [c] with depth := draft.depth + 1 } rest := by
  rw [isOpening, Bool.or_eq_true, Bool.or_eq_true, beq_iff_eq, beq_iff_eq, beq_iff_eq] at opens
  rw [lines.eq_def]
  rcases opens with (rfl | rfl) | rfl <;> rfl

/-- A closing bracket is kept, and takes the depth back, at most to nothing. -/
theorem lines_closing (closes : isClosing c = true) (draft : Draft) (rest : List Char) :
    draft.lines (c :: rest) =
      Draft.lines { draft.push [c] with depth := draft.depth - 1 } rest := by
  rw [isClosing, Bool.or_eq_true, Bool.or_eq_true, beq_iff_eq, beq_iff_eq, beq_iff_eq] at closes
  rw [lines.eq_def]
  rcases closes with (rfl | rfl) | rfl <;> rfl

/-- A backslash before a line feed joins the lines with a space, and the line feed is counted. -/
theorem lines_continued (draft : Draft) (rest : List Char) :
    draft.lines ('\\' :: '\n' :: rest) = ((draft.push [' ']).advance ['\n']).lines rest := by
  rw [lines.eq_def]
  rfl

/-- A backslash before anything else is kept. -/
theorem lines_backslash (alone : rest.head? ≠ some '\n') (draft : Draft) :
    draft.lines ('\\' :: rest) = (draft.push ['\\']).lines rest := by
  rw [lines.eq_def]
  simp [alone, isQuote, isOpening, isClosing]

/-- A carriage return is dropped. -/
theorem lines_return (draft : Draft) (rest : List Char) :
    draft.lines ('\r' :: rest) = draft.lines rest := by
  rw [lines.eq_def]
  rfl

/-- Inside of brackets a line feed is a space, and is counted. -/
theorem lines_feed_inside (deep : 0 < draft.depth) (rest : List Char) :
    draft.lines ('\n' :: rest) = ((draft.push [' ']).advance ['\n']).lines rest := by
  rw [lines.eq_def]
  exact if_pos deep

/-- Outside of brackets a line feed ends the line. -/
theorem lines_feed (flat : draft.depth = 0) (rest : List Char) :
    draft.lines ('\n' :: rest) = draft.finish ++
      (Draft.blank (draft.current + 1) (column (rest.takeWhile isIndent))).lines
        (rest.dropWhile isIndent) := by
  have shallow : ¬ 0 < draft.depth := by omega
  rw [lines.eq_def]
  exact if_neg shallow

/-- A character that is kept and does nothing else. -/
structure Ordinary (c : Char) : Prop where
  uncommented : c ≠ '#'
  unquoted : isQuote c = false
  unopened : isOpening c = false
  unclosed : isClosing c = false
  solid : c ≠ '\\'
  oneLine : c ≠ '\r' ∧ c ≠ '\n'

instance (c : Char) : Decidable (Ordinary c) :=
  decidable_of_iff (c ≠ '#' ∧ isQuote c = false ∧ isOpening c = false ∧ isClosing c = false ∧
      c ≠ '\\' ∧ c ≠ '\r' ∧ c ≠ '\n')
    ⟨fun ⟨uncommented, unquoted, unopened, unclosed, solid, oneLine⟩ =>
      ⟨uncommented, unquoted, unopened, unclosed, solid, oneLine⟩,
      fun plain => ⟨plain.uncommented, plain.unquoted, plain.unopened, plain.unclosed,
        plain.solid, plain.oneLine⟩⟩

/-- Any other character is kept. -/
theorem lines_ordinary (plain : Ordinary c) (draft : Draft) (rest : List Char) :
    draft.lines (c :: rest) = (draft.push [c]).lines rest := by
  rw [lines.eq_def]
  simp [plain.uncommented, plain.unquoted, plain.unopened, plain.unclosed, plain.solid,
    plain.oneLine]

private theorem push_push (draft : Draft) (first second : List Char) :
    (draft.push first).push second = draft.push (first ++ second) := by
  simp [push]

/-- Ordinary characters are kept one by one. -/
theorem lines_pushed (plain : ∀ c ∈ text, Ordinary c) (draft : Draft) (rest : List Char) :
    draft.lines (text ++ rest) = (draft.push text).lines rest := by
  induction text generalizing draft with
  | nil => rfl
  | cons c others ih =>
    rw [List.cons_append, lines_ordinary (plain c List.mem_cons_self),
      ih fun d member => plain d (List.mem_cons_of_mem _ member), push_push]
    rfl

/-! What has been read of a line. -/

/-- The characters of a draft in the order of the source. -/
def chars (draft : Draft) : List Char := draft.reversed.reverse

@[simp] theorem chars_blank (number indent : Nat) : (blank number indent).chars = [] := rfl

@[simp] theorem chars_push (draft : Draft) (more : List Char) :
    (draft.push more).chars = draft.chars ++ more := by
  simp [chars, push]

@[simp] theorem chars_advance (draft : Draft) (passed : List Char) :
    (draft.advance passed).chars = draft.chars := rfl

/-- A blank draft stays blank with one more blank. -/
theorem blank_push (none : Blank draft.chars) (blank : isBlank c = true) :
    Blank (draft.push [c]).chars := by
  rw [chars_push]
  simpa [Blank, blank, or_imp, forall_and] using none

/-- A line is finished without the blanks at its ends. -/
theorem finish_shown (shown : Shown draft.chars) :
    draft.finish = [⟨draft.number, draft.indent, trim draft.chars⟩] := by
  obtain ⟨c, rest, some⟩ := List.exists_cons_of_ne_nil (trim_ne_nil shown)
  have held : trim draft.reversed.reverse = c :: rest := some
  rw [finish, held, some]

/-- A blank draft gives no line. -/
theorem finish_blank (none : Blank draft.chars) : draft.finish = [] := by
  have held : trim draft.reversed.reverse = [] := trim_of_blank none
  rw [finish, held]

/-- A line without blanks at its ends is kept as it is. -/
theorem finish_tight (tight : Tight draft.chars) :
    draft.finish = [⟨draft.number, draft.indent, draft.chars⟩] := by
  obtain ⟨c, first, solid⟩ := tight.first
  rw [finish_shown ⟨c, List.mem_of_mem_head? first, solid⟩, tight.trim]

/-! What a step can do. -/

/-- The kinds of characters that a step tells apart. -/
theorem kind_cases (c : Char) : c = '#' ∨ isQuote c = true ∨ isOpening c = true ∨
    isClosing c = true ∨ c = '\\' ∨ c = '\r' ∨ c = '\n' ∨ Ordinary c := by
  by_cases plain : Ordinary c
  · simp [plain]
  · by_contra none
    simp only [not_or, Bool.not_eq_true] at none
    obtain ⟨uncommented, unquoted, unopened, unclosed, solid, carriage, feed, extra⟩ := none
    exact plain ⟨uncommented, unquoted, unopened, unclosed, solid, carriage, feed⟩

theorem solid_ne (solid : isBlank c = false) : c ≠ '\n' ∧ c ≠ '\r' := by
  constructor
  · rintro rfl
    cases solid
  · rintro rfl
    cases solid

/-- A blank is kept, unless it ends a line. -/
theorem ordinary_of_isBlank (blank : isBlank c = true) (oneLine : c ≠ '\r' ∧ c ≠ '\n') :
    Ordinary c := by
  have shown (solid : isBlank c = false) : Ordinary c := by
    rw [blank] at solid
    cases solid
  rcases kind_cases c with rfl | quote | opens | closes | rfl | carriage | feed | plain
  · cases blank
  · exact shown (solid_of_isQuote quote)
  · exact shown (solid_of_isOpening opens)
  · exact shown (solid_of_isClosing closes)
  · cases blank
  · exact absurd carriage oneLine.1
  · exact absurd feed oneLine.2
  · exact plain

/-- Indentation is blank, without line ends. -/
theorem isIndent_cases (indent : isIndent c = true) :
    isBlank c = true ∧ c ≠ '\r' ∧ c ≠ '\n' := by
  rw [isIndent, Bool.or_eq_true, Bool.or_eq_true, beq_iff_eq, beq_iff_eq, beq_iff_eq] at indent
  rcases indent with (rfl | rfl) | rfl <;> decide

/-- Indentation ends where the line does. -/
theorem dropWhile_feed (back more : List Char) :
    (back ++ '\n' :: more).dropWhile isIndent = back.dropWhile isIndent ++ '\n' :: more := by
  rw [List.dropWhile_append]
  split
  · next none =>
    rw [List.isEmpty_iff.mp none]
    rfl
  · rfl

/-- `next` is at the line of `draft` and holds more of it. -/
structure Continues (draft next : Draft) (more : List Char) : Prop where
  number : next.number = draft.number
  indent : next.indent = draft.indent
  current : draft.current ≤ next.current
  chars : next.chars = draft.chars ++ more

namespace Continues

theorem refl (draft : Draft) : Continues draft draft [] := ⟨rfl, rfl, Nat.le_refl _, by simp⟩

/-- Keeping characters goes on with a draft. -/
theorem push (draft : Draft) (more : List Char) : Continues draft (draft.push more) more :=
  ⟨rfl, rfl, Nat.le_refl _, chars_push draft more⟩

/-- Counting line feeds goes on with a draft, and keeps nothing. -/
theorem advance (goes : Continues draft next more) (passed : List Char) :
    Continues draft (next.advance passed) more :=
  ⟨goes.number, goes.indent, Nat.le_trans goes.current (Nat.le_add_right _ _), goes.chars⟩

private theorem nested (goes : Continues draft next more) (depth : Nat) :
    Continues draft { next with depth } more :=
  ⟨goes.number, goes.indent, goes.current, goes.chars⟩

end Continues

/-- A step goes on with the line or ends it. -/
theorem lines_cases (draft : Draft) (text : List Char) : text = [] ∨
    (∃ next more rest, Continues draft next more ∧ rest.length < text.length ∧
      draft.lines text = next.lines rest) ∨
    (∃ indent rest, rest.length < text.length ∧
      draft.lines text = draft.finish ++ (blank (draft.current + 1) indent).lines rest) := by
  cases text with
  | nil => exact .inl rfl
  | cons c rest =>
    right
    rcases kind_cases c with rfl | quote | opens | closes | rfl | rfl | rfl | plain
    · have shorter := (List.dropWhile_suffix (· ≠ '\n') (l := rest)).length_le
      exact .inl ⟨draft, [], _, .refl draft, Nat.lt_succ_of_le shorter, lines_comment draft rest⟩
    · have shorter := literalTail_after_length_le c rest
      exact .inl ⟨_, _, _, (Continues.push draft _).advance _, Nat.lt_succ_of_le shorter,
        lines_literal quote draft rest⟩
    · exact .inl ⟨_, _, rest, (Continues.push draft [c]).nested _, Nat.lt_succ_self _,
        lines_opening opens draft rest⟩
    · exact .inl ⟨_, _, rest, (Continues.push draft [c]).nested _, Nat.lt_succ_self _,
        lines_closing closes draft rest⟩
    · by_cases continued : rest.head? = some '\n'
      · obtain ⟨others, rfl⟩ := List.head?_eq_some_iff.mp continued
        refine .inl ⟨_, _, others, (Continues.push draft [' ']).advance _, ?_,
          lines_continued draft others⟩
        rw [List.length_cons, List.length_cons]
        omega
      · exact .inl ⟨_, _, rest, .push draft ['\\'], Nat.lt_succ_self _,
          lines_backslash continued draft⟩
    · exact .inl ⟨draft, [], rest, .refl draft, Nat.lt_succ_self _, lines_return draft rest⟩
    · by_cases deep : 0 < draft.depth
      · exact .inl ⟨_, _, rest, (Continues.push draft [' ']).advance _, Nat.lt_succ_self _,
          lines_feed_inside deep rest⟩
      · have shorter := (List.dropWhile_suffix isIndent (l := rest)).length_le
        exact .inr ⟨_, _, Nat.lt_succ_of_le shorter,
          lines_feed (Nat.eq_zero_of_not_pos deep) rest⟩
    · exact .inl ⟨_, _, rest, .push draft [c], Nat.lt_succ_self _, lines_ordinary plain draft rest⟩

/-- Induction over the steps of a reading. -/
@[elab_as_elim]
theorem lines_induction {motive : Draft → List Char → Prop} (nil : ∀ draft, motive draft [])
    (onward : ∀ {draft next more text rest}, Continues draft next more →
      draft.lines text = next.lines rest → motive next rest → motive draft text)
    (ended : ∀ {draft indent text rest},
      draft.lines text = draft.finish ++ (blank (draft.current + 1) indent).lines rest →
      motive (blank (draft.current + 1) indent) rest → motive draft text)
    (draft : Draft) (text : List Char) : motive draft text := by
  induction bound : text.length using Nat.strongRecOn generalizing text draft with
  | _ length shorter =>
    rcases lines_cases draft text with rfl | ⟨next, more, rest, goes, less, same⟩ |
      ⟨indent, rest, less, same⟩
    · exact nil draft
    · exact onward goes same (shorter _ (bound ▸ less) next rest rfl)
    · exact ended same (shorter _ (bound ▸ less) _ rest rfl)

/-- A character that shows something is kept, unless it begins a comment. -/
theorem lines_solid (solid : isBlank c = false) (uncommented : c ≠ '#')
    (alone : c = '\\' → rest.head? ≠ some '\n') (draft : Draft) :
    ∃ next more later, Continues draft next (c :: more) ∧
      draft.lines (c :: rest) = next.lines later := by
  rcases kind_cases c with rfl | quote | opens | closes | rfl | rfl | rfl | plain
  · exact absurd rfl uncommented
  · exact ⟨_, _, _, (Continues.push draft _).advance _, lines_literal quote draft rest⟩
  · exact ⟨_, _, _, (Continues.push draft [c]).nested _, lines_opening opens draft rest⟩
  · exact ⟨_, _, _, (Continues.push draft [c]).nested _, lines_closing closes draft rest⟩
  · exact ⟨_, _, _, .push draft ['\\'], lines_backslash (alone rfl) draft⟩
  · cases solid
  · cases solid
  · exact ⟨_, _, _, .push draft [c], lines_ordinary plain draft rest⟩

/-- A draft that shows something becomes the first line, with what is put behind it. -/
theorem lines_shown (shown : Shown draft.chars) (text : List Char) :
    ∃ more rest, draft.lines text =
      ⟨draft.number, draft.indent, trim (draft.chars ++ more)⟩ :: rest := by
  induction draft, text using lines_induction with
  | nil draft =>
    refine ⟨[], [], ?_⟩
    rw [lines_nil, finish_shown shown, List.append_nil]
  | @onward draft next more text rest goes same ih =>
    have shows : Shown next.chars := by
      rw [goes.chars]
      exact shown.append more
    obtain ⟨later, lines, read⟩ := ih shows
    refine ⟨more ++ later, lines, ?_⟩
    rw [same, read, goes.number, goes.indent, goes.chars, List.append_assoc]
  | @ended draft indent text rest same =>
    refine ⟨[], (blank (draft.current + 1) indent).lines rest, ?_⟩
    rw [same, finish_shown shown, List.append_nil]
    rfl

/-- Lines are numbered in the order in which they begin: the line of the draft has its
number, and all others begin behind the place that has been reached. -/
theorem lines_numbers (text : List Char) :
    ∀ line ∈ draft.lines text, line.number = draft.number ∨ draft.current < line.number := by
  have finished (draft : Draft) : ∀ line ∈ draft.finish, line.number = draft.number := by
    intro line member
    rcases blank_or_shown draft.chars with none | shown
    · rw [finish_blank none] at member
      cases member
    · rw [finish_shown shown, List.mem_singleton] at member
      rw [member]
  intro line member
  induction draft, text using lines_induction with
  | nil draft =>
    rw [lines_nil] at member
    exact .inl (finished draft line member)
  | onward goes same ih =>
    rw [same] at member
    rcases ih member with own | later
    · exact .inl (own.trans goes.number)
    · exact .inr (Nat.lt_of_le_of_lt goes.current later)
  | @ended draft indent text rest same ih =>
    rw [same] at member
    rcases List.mem_append.mp member with here | below
    · exact .inl (finished draft line here)
    · right
      rcases ih below with own | later
      · rw [own]
        exact Nat.lt_succ_self _
      · exact Nat.lt_of_succ_lt later

end Draft
end ApiScribe.Source
