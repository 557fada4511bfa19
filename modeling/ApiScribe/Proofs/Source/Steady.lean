import ApiScribe.Proofs.Source.CarriageReturns

/-! Texts that are read the same with either line end. What matters is where a backslash
stands before a line feed, and whether anything is shown behind it. -/
namespace ApiScribe.Source
open Text ApiScribe.Expr

variable {c : Char} {text rest inside : List Char} {draft : Draft}

/-- Whether a text shows nothing but comments: all of it inside of brackets, and
otherwise what stands before its first line feed. -/
def isBare (deep : Bool) : List Char → Bool
  | [] => true
  | c :: rest =>
    if c = '#' then isBare deep (rest.dropWhile (· ≠ '\n'))
    else if c = '\n' ∧ deep = false then true
    else isBlank c && isBare deep rest
termination_by text => text.length
decreasing_by
  · have shorter := (List.dropWhile_suffix (· ≠ '\n') (l := rest)).length_le
    simp only [List.length_cons]
    omega
  · simp

/-- Whether a text is read the same with either line end from a place on that lies in
`depth` brackets. No backslash may stand before a line feed outside of comments and of
literals with three quotes. A literal with one quote may go on behind it when it shows
nothing there, as it is not closed then; inside of brackets, which cannot be closed then
either, the rest of the text must show nothing. -/
def isSteady (depth : Nat) : List Char → Bool
  | [] => true
  | c :: rest =>
    if c = '#' then isSteady depth (rest.dropWhile (· ≠ '\n'))
    else if isQuote c then
      let literal := (literalTail c rest).1
      let after := (literalTail c rest).2
      if rest.take 2 = [c, c] ∨ '\n' ∉ literal then isSteady depth after
      else isBlankLine (literal.dropWhile (· ≠ '\n')) &&
        (if depth = 0 then isSteady 0 after else isBare true after)
    else if isOpening c then isSteady (depth + 1) rest
    else if isClosing c then isSteady (depth - 1) rest
    else if c = '\\' ∧ rest.head? = some '\n' then false
    else isSteady depth rest
termination_by text => text.length
decreasing_by
  all_goals simp only [List.length_cons]
  · have shorter := (List.dropWhile_suffix (· ≠ '\n') (l := rest)).length_le
    omega
  · have shorter := literalTail_after_length_le c rest
    omega
  · have shorter := literalTail_after_length_le c rest
    omega
  · omega
  · omega
  · omega

/-- Comments are passed over. -/
theorem isSteady_comment (depth : Nat) (rest : List Char) :
    isSteady depth ('#' :: rest) = isSteady depth (rest.dropWhile (· ≠ '\n')) := by
  rw [isSteady.eq_def]
  rfl

/-- A literal with three quotes, or on one line, is passed over. One that a backslash takes over a
line end is not, unless what goes on behind it shows nothing. -/
theorem isSteady_literal (quote : isQuote c = true) (depth : Nat) (rest : List Char) :
    isSteady depth (c :: rest) =
      if rest.take 2 = [c, c] ∨ '\n' ∉ (literalTail c rest).1 then
        isSteady depth (literalTail c rest).2
      else isBlankLine ((literalTail c rest).1.dropWhile (· ≠ '\n')) &&
        (if depth = 0 then isSteady 0 (literalTail c rest).2
        else isBare true (literalTail c rest).2) := by
  have other : c ≠ '#' := by
    rintro rfl
    cases quote
  rw [isSteady.eq_def]
  simp only
  rw [if_neg other, if_pos quote]

theorem isSteady_opening (opens : isOpening c = true) (depth : Nat) (rest : List Char) :
    isSteady depth (c :: rest) = isSteady (depth + 1) rest := by
  rw [isOpening, Bool.or_eq_true, Bool.or_eq_true, beq_iff_eq, beq_iff_eq, beq_iff_eq] at opens
  rw [isSteady.eq_def]
  rcases opens with (rfl | rfl) | rfl <;> rfl

theorem isSteady_closing (closes : isClosing c = true) (depth : Nat) (rest : List Char) :
    isSteady depth (c :: rest) = isSteady (depth - 1) rest := by
  rw [isClosing, Bool.or_eq_true, Bool.or_eq_true, beq_iff_eq, beq_iff_eq, beq_iff_eq] at closes
  rw [isSteady.eq_def]
  rcases closes with (rfl | rfl) | rfl <;> rfl

/-- A backslash before a line feed is where the line ends differ. -/
theorem isSteady_continued (depth : Nat) (rest : List Char) :
    isSteady depth ('\\' :: '\n' :: rest) = false := by
  rw [isSteady.eq_def]
  rfl

/-- A backslash before anything else is read as any character. -/
theorem isSteady_backslash (alone : rest.head? ≠ some '\n') (depth : Nat) :
    isSteady depth ('\\' :: rest) = isSteady depth rest := by
  rw [isSteady.eq_def]
  simp [alone, isQuote, isOpening, isClosing]

theorem isSteady_feed (depth : Nat) (rest : List Char) :
    isSteady depth ('\n' :: rest) = isSteady depth rest := by
  rw [isSteady.eq_def]
  rfl

theorem isSteady_ordinary (plain : Draft.Ordinary c) (depth : Nat) (rest : List Char) :
    isSteady depth (c :: rest) = isSteady depth rest := by
  rw [isSteady.eq_def]
  simp [plain.uncommented, plain.unquoted, plain.unopened, plain.unclosed, plain.solid]

/-- Indentation is of no account. -/
theorem isSteady_indent (depth : Nat) (rest : List Char) :
    isSteady depth (rest.dropWhile isIndent) = isSteady depth rest := by
  induction rest with
  | nil => rfl
  | cons c rest ih =>
    by_cases indent : isIndent c = true
    · obtain ⟨blank, oneLine⟩ := Draft.isIndent_cases indent
      rw [List.dropWhile_cons_of_pos indent, ih,
        isSteady_ordinary (Draft.ordinary_of_isBlank blank oneLine)]
    · rw [List.dropWhile_cons_of_neg indent]

private theorem isBare_comment (deep : Bool) (rest : List Char) :
    isBare deep ('#' :: rest) = isBare deep (rest.dropWhile (· ≠ '\n')) := by
  rw [isBare.eq_def]
  rfl

private theorem isBare_other {deep : Bool} (uncommented : c ≠ '#') (inside : c = '\n' → deep = true)
    (rest : List Char) : isBare deep (c :: rest) = (isBlank c && isBare deep rest) := by
  have goes : ¬(c = '\n' ∧ deep = false) := fun ⟨feed, shallow⟩ => by
    rw [inside feed] at shallow
    cases shallow
  rw [isBare.eq_def]
  simp only
  rw [if_neg uncommented, if_neg goes]

theorem isBare_indent (deep : Bool) (rest : List Char) :
    isBare deep (rest.dropWhile isIndent) = isBare deep rest := by
  induction rest with
  | nil => rfl
  | cons c rest ih =>
    by_cases indent : isIndent c = true
    · obtain ⟨blank, _, oneLine⟩ := Draft.isIndent_cases indent
      have uncommented : c ≠ '#' := by
        rintro rfl
        cases blank
      rw [List.dropWhile_cons_of_pos indent, ih,
        isBare_other uncommented (fun feed => absurd feed oneLine), blank, Bool.true_and]
    · rw [List.dropWhile_cons_of_neg indent]

/-- Blanks inside of brackets show nothing, line feeds among them. -/
theorem isBare_blank (blank : Blank inside) (after : List Char) :
    isBare true (inside ++ after) = isBare true after := by
  induction inside with
  | nil => rfl
  | cons c rest ih =>
    have first := blank c List.mem_cons_self
    have uncommented : c ≠ '#' := by
      rintro rfl
      cases first
    rw [List.cons_append, isBare_other uncommented fun _ => rfl, first, Bool.true_and,
      ih fun d member => blank d (List.mem_cons_of_mem _ member)]

/-- Carriage returns show nothing either. -/
theorem isBare_withReturns (text : List Char) :
    isBare true (withReturns text) = isBare true text := by
  have feed (rest : List Char) : isBare true ('\n' :: rest) = isBare true rest := by
    rw [isBare_other (by decide) fun _ => rfl]
    rfl
  have carriage (rest : List Char) : isBare true ('\r' :: rest) = isBare true rest := by
    rw [isBare_other (by decide) fun _ => rfl]
    rfl
  fun_induction isBare true text with
  | case1 =>
    have none : withReturns [] = [] := rfl
    rw [none, isBare.eq_def]
  | case2 rest ih =>
    rw [withReturns_other (by decide), isBare_comment, ← ih]
    rcases comment_withReturns rest with ⟨none, none'⟩ | ⟨more, next, next'⟩
    · rw [none, none']
      rfl
    · rw [next, next', withReturns_feed, carriage]
  | case3 c rest comment feed => cases feed.2
  | case4 c rest comment _ ih =>
    by_cases ends : c = '\n'
    · rw [ends, withReturns_feed, carriage, feed, ih]
      rfl
    · rw [withReturns_other ends, isBare_other comment fun _ => rfl, ih]

namespace Draft

/-- Inside of brackets nothing is added to a line by a text that shows nothing. -/
theorem lines_bare (shown : Shown draft.chars) (deep : 0 < draft.depth)
    (bare : isBare true text = true) :
    draft.lines text = [⟨draft.number, draft.indent, trim draft.chars⟩] := by
  fun_induction isBare true text generalizing draft with
  | case1 => rw [lines_nil, finish_shown shown]
  | case2 rest ih =>
    rw [lines_comment]
    exact ih shown deep bare
  | case3 c rest comment feed => cases feed.2
  | case4 c rest comment _ ih =>
    obtain ⟨blank, below⟩ := Bool.and_eq_true_iff.mp bare
    have step {next : Draft} {more : List Char} (goes : Continues draft next more)
        (nothing : Blank more) (inside : 0 < next.depth)
        (same : draft.lines (c :: rest) = next.lines rest) :
        draft.lines (c :: rest) = [⟨draft.number, draft.indent, trim draft.chars⟩] := by
      have shows : Shown next.chars := by
        rw [goes.chars]
        exact shown.append more
      rw [same, ih shows inside below, goes.number, goes.indent, goes.chars,
        trim_append_blank nothing]
    by_cases carriage : c = '\r'
    · subst carriage
      exact step (.refl draft) (by simp [Blank]) deep (lines_return draft rest)
    · by_cases feed : c = '\n'
      · subst feed
        exact step ((Continues.push draft [' ']).advance ['\n']) (by decide) deep
          (lines_feed_inside deep rest)
      · have plain := ordinary_of_isBlank blank ⟨carriage, feed⟩
        exact step (.push draft [c]) (by simpa [Blank] using blank) deep
          (lines_ordinary plain draft rest)

/-- A text that is not bare adds to the line. With carriage returns even a backslash does
that joins the line to the next one. -/
theorem lines_unbare (plain : '\r' ∉ text)
    (unbare : isBare (decide (0 < draft.depth)) text = false) :
    ∃ more rest, Shown more ∧ draft.lines (withReturns text) =
      ⟨draft.number, draft.indent, trim (draft.chars ++ more)⟩ :: rest := by
  generalize inside : decide (0 < draft.depth) = deep at unbare
  fun_induction isBare deep text generalizing draft with
  | case1 => cases unbare
  | case2 rest ih =>
    rw [withReturns_other (by decide), lines_comment, lines_behind_comment]
    exact ih (fun member => plain (List.mem_cons_of_mem _ (List.dropWhile_subset _ member)))
      inside unbare
  | case3 => cases unbare
  | case4 c rest comment goes ih =>
    rw [List.mem_cons, not_or] at plain
    -- A blank that was kept stands before what the rest of the text adds.
    have step {next : Draft} {kept : List Char} (goes : Continues draft next kept)
        (depth : next.depth = draft.depth) (blank : isBlank c = true)
        (same : draft.lines (withReturns (c :: rest)) = next.lines (withReturns rest)) :
        ∃ more rest', Shown more ∧ draft.lines (withReturns (c :: rest)) =
          ⟨draft.number, draft.indent, trim (draft.chars ++ more)⟩ :: rest' := by
      obtain ⟨more, lines, ⟨d, member, solid⟩, read⟩ :=
        ih plain.2 (depth ▸ inside) (by simpa [blank] using unbare)
      refine ⟨kept ++ more, lines, ⟨d, List.mem_append_right kept member, solid⟩, ?_⟩
      rw [same, read, goes.number, goes.indent, goes.chars, List.append_assoc]
    by_cases feed : c = '\n'
    · subst feed
      have deep : 0 < draft.depth := by simpa [← inside, Nat.pos_iff_ne_zero] using goes
      refine step ((Continues.push draft [' ']).advance ['\n']) rfl (by decide) ?_
      rw [withReturns_feed, lines_return, lines_feed_inside deep]
    · by_cases blank : isBlank c = true
      · refine step (.push draft [c]) rfl blank ?_
        rw [withReturns_other feed, lines_ordinary (ordinary_of_isBlank blank
          ⟨Ne.symm plain.1, feed⟩)]
      · have solid : isBlank c = false := by simpa using blank
        obtain ⟨next, kept, later, goes, same⟩ :=
          lines_solid solid comment (fun _ => head?_withReturns rest) draft
        have shown : Shown next.chars := by
          rw [goes.chars]
          exact ⟨c, List.mem_append_right _ List.mem_cons_self, solid⟩
        obtain ⟨more, lines, read⟩ := lines_shown shown later
        refine ⟨c :: kept ++ more, lines, (shown_cons solid kept).append more, ?_⟩
        rw [withReturns_other feed, same, read, goes.number, goes.indent, goes.chars,
          List.append_assoc]

/-- Where a line shows nothing up to its end, every line begins behind it. -/
theorem lines_bare_numbers (none : Blank draft.chars) (flat : draft.depth = 0)
    (plain : '\r' ∉ text) (bare : isBare false text = true) :
    ∀ line ∈ draft.lines text, draft.current < line.number := by
  fun_induction isBare false text generalizing draft with
  | case1 =>
    rw [lines_nil, finish_blank none]
    exact fun line member => absurd member List.not_mem_nil
  | case2 rest ih =>
    rw [lines_comment]
    exact ih none flat
      (fun member => plain (List.mem_cons_of_mem _ (List.dropWhile_subset _ member))) bare
  | case3 c rest comment ends =>
    intro line member
    rw [ends.1, lines_feed flat, finish_blank none, List.nil_append] at member
    rcases lines_numbers _ line member with own | later
    · rw [own]
      exact Nat.lt_succ_self _
    · exact Nat.lt_of_succ_lt later
  | case4 c rest comment goes ih =>
    rw [List.mem_cons, not_or] at plain
    have feed : c ≠ '\n' := fun feed => goes ⟨feed, rfl⟩
    obtain ⟨blank, below⟩ := Bool.and_eq_true_iff.mp bare
    rw [lines_ordinary (ordinary_of_isBlank blank ⟨Ne.symm plain.1, feed⟩)]
    have still : Blank (draft.push [c]).chars := by
      rw [chars_push]
      intro d listed
      rcases List.mem_append.mp listed with before | here
      · exact none d before
      · rw [List.mem_singleton.mp here]
        exact blank
    exact ih still flat plain.2 below

end Draft
end ApiScribe.Source
