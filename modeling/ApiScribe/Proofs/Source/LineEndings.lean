import ApiScribe.Proofs.Source.Steady

/-! Line ends of two characters. A carriage return before a line feed is passed over
everywhere but behind a backslash, where it takes the place of the line feed: there the
line ends that would have been joined. A source is read the same with either line end
exactly when no backslash joins physical lines of it, but for literals that are never
closed and show nothing behind the backslash. -/
namespace ApiScribe.Source
open Text ApiScribe.Expr

namespace Draft
variable {c : Char} {text rest : List Char} {draft next : Draft}

/-- A text is read the same with either line end, from a draft that may hold carriage
returns already. -/
def Same (draft : Draft) (text : List Char) : Prop :=
  (draft.lines (withReturns text)).map Line.withoutReturns = draft.withoutReturns.lines text

/-- What holds of every draft that reading comes to: its line has begun, and brackets
that are open show. -/
structure Ready (draft : Draft) : Prop where
  begun : draft.number ≤ draft.current
  shown : 0 < draft.depth → Shown draft.chars

namespace Ready

private theorem blank (number indent : Nat) : Ready (blank number indent) where
  begun := Nat.le_refl number
  shown deep := absurd deep (Nat.lt_irrefl 0)

private theorem push (ready : Ready draft) (more : List Char) : Ready (draft.push more) where
  begun := ready.begun
  shown deep := by
    rw [chars_push]
    exact (ready.shown deep).append more

private theorem advance (ready : Ready draft) (passed : List Char) :
    Ready (draft.advance passed) where
  begun := Nat.le_trans ready.begun (Nat.le_add_right _ _)
  shown := ready.shown

private theorem nested (ready : Ready draft) (solid : isBlank c = false) (depth : Nat) :
    Ready { draft.push [c] with depth } where
  begun := ready.begun
  shown _ := by
    show Shown (draft.push [c]).chars
    rw [chars_push]
    exact ⟨c, List.mem_append_right _ List.mem_cons_self, solid⟩

end Ready

private theorem same_step (returns : draft.lines (withReturns text) = next.lines (withReturns rest))
    (feeds : draft.withoutReturns.lines text = next.withoutReturns.lines rest) :
    Same draft text ↔ Same next rest := by
  rw [Same, Same, returns, feeds]

private theorem same_nil (draft : Draft) : Same draft [] := by
  have none : draft.lines (withReturns []) = draft.finish := lines_nil draft
  rw [Same, none, lines_nil, finish_withoutReturns]

private theorem same_comment (draft : Draft) (rest : List Char) :
    Same draft ('#' :: rest) ↔ Same draft (rest.dropWhile (· ≠ '\n')) := by
  refine same_step ?_ (lines_comment _ rest)
  rw [withReturns_other (by decide), lines_comment, lines_behind_comment]

/-- A literal that has the same text but for carriage returns. -/
theorem same_literal (quote : isQuote c = true) {literal later : List Char}
    (read : literalTail c (withReturns rest) = (literal, later))
    (same : Source.withoutReturns literal = (literalTail c rest).1)
    (count : literal.count '\n' = (literalTail c rest).1.count '\n')
    (behind : ∀ draft : Draft, draft.lines later =
      draft.lines (withReturns (literalTail c rest).2)) (draft : Draft) :
    Same draft (c :: rest) ↔
      Same ((draft.push (c :: literal)).advance (c :: literal)) (literalTail c rest).2 := by
  obtain ⟨notFeed, notReturn, _⟩ := quote_ne quote
  refine same_step ?_ ?_
  · rw [withReturns_other notFeed, lines_literal quote, read]
    exact behind _
  · have held : Source.withoutReturns (c :: literal) = c :: (literalTail c rest).1 := by
      rw [← same]
      exact List.filter_cons_of_pos (by simpa using notReturn)
    have lines : (c :: (literalTail c rest).1).count '\n' = (c :: literal).count '\n' := by
      rw [List.count_cons, List.count_cons, count]
    rw [lines_literal quote, withoutReturns_advance, withoutReturns_push, held,
      advance_count lines]

/-- A character that is kept and changes nothing but the depth. -/
theorem same_kept (depth : Nat → Nat) (other : c ≠ '\n' ∧ c ≠ '\r')
    (lines : ∀ (draft : Draft) (rest : List Char), draft.lines (c :: rest) =
      Draft.lines { draft.push [c] with depth := depth draft.depth } rest)
    (draft : Draft) (rest : List Char) :
    Same draft (c :: rest) ↔ Same { draft.push [c] with depth := depth draft.depth } rest := by
  refine same_step ?_ ?_
  · rw [withReturns_other other.1, lines]
  · have held := withoutReturns_push draft [c]
    rw [withoutReturns_of_plain (by simpa using Ne.symm other.2)] at held
    rw [lines, ← held]
    rfl

private theorem same_opening (opens : isOpening c = true) (draft : Draft) (rest : List Char) :
    Same draft (c :: rest) ↔ Same { draft.push [c] with depth := draft.depth + 1 } rest :=
  same_kept (· + 1) (solid_ne (solid_of_isOpening opens)) (lines_opening opens) draft rest

private theorem same_closing (closes : isClosing c = true) (draft : Draft) (rest : List Char) :
    Same draft (c :: rest) ↔ Same { draft.push [c] with depth := draft.depth - 1 } rest :=
  same_kept (· - 1) (solid_ne (solid_of_isClosing closes)) (lines_closing closes) draft rest

private theorem same_ordinary (plain : Ordinary c) (draft : Draft) (rest : List Char) :
    Same draft (c :: rest) ↔ Same (draft.push [c]) rest :=
  same_kept id ⟨plain.oneLine.2, plain.oneLine.1⟩ (lines_ordinary plain) draft rest

private theorem same_backslash (alone : rest.head? ≠ some '\n') (draft : Draft) :
    Same draft ('\\' :: rest) ↔ Same (draft.push ['\\']) rest := by
  refine same_step ?_ ?_
  · rw [withReturns_other (by decide), lines_backslash (head?_withReturns rest)]
  · rw [lines_backslash alone, withoutReturns_push]
    rfl

private theorem same_feed_inside (deep : 0 < draft.depth) (rest : List Char) :
    Same draft ('\n' :: rest) ↔ Same ((draft.push [' ']).advance ['\n']) rest := by
  refine same_step ?_ ?_
  · rw [withReturns_feed, lines_return, lines_feed_inside deep]
  · have inside : 0 < draft.withoutReturns.depth := deep
    rw [lines_feed_inside inside, withoutReturns_advance, withoutReturns_push]
    rfl

/-- The line that ends makes no difference to what comes behind it. -/
theorem same_feed (flat : draft.depth = 0) (rest : List Char) :
    Same draft ('\n' :: rest) ↔
      Same (Draft.blank (draft.current + 1) (column (rest.takeWhile isIndent)))
        (rest.dropWhile isIndent) := by
  have outside : draft.withoutReturns.depth = 0 := flat
  have below := indent_withReturns rest
  rw [Same, Same, withReturns_feed, lines_return, lines_feed flat, lines_feed outside, below.1,
    below.2, List.map_append, finish_withoutReturns, List.append_cancel_left_eq]
  rfl

/-! Where a backslash joins lines. -/

/-- Two readings of one draft that part with characters `c` and `d` show nothing more if
their first lines have the same text. -/
theorem blank_of_same_trim {d : Char} {more more' : List Char}
    (shown : Shown (Source.withoutReturns text)) (kept : c ≠ '\r') (apart : c ≠ d)
    (same : Source.withoutReturns (trim (text ++ c :: more)) =
      trim (Source.withoutReturns text ++ d :: more')) :
    Blank (c :: Source.withoutReturns more) ∧ Blank (d :: more') := by
  have cleaned : Source.withoutReturns (text ++ c :: more) =
      Source.withoutReturns text ++ c :: Source.withoutReturns more := by
    rw [withoutReturns_append]
    exact congrArg (Source.withoutReturns text ++ ·)
      (List.filter_cons_of_pos (by simpa using kept))
  rw [← trim_withoutReturns, cleaned] at same
  exact blank_of_trim_eq shown apart same

/-- With a carriage return the backslash is kept, without one both characters make a
blank. -/
theorem same_continued_iff (draft : Draft) (rest : List Char) :
    Same draft ('\\' :: '\n' :: rest) ↔
      ((draft.push ['\\']).lines ('\n' :: withReturns rest)).map Line.withoutReturns =
        ((draft.withoutReturns.push [' ']).advance ['\n']).lines rest := by
  have returns : draft.lines (withReturns ('\\' :: '\n' :: rest)) =
      (draft.push ['\\']).lines ('\n' :: withReturns rest) := by
    rw [withReturns_other (by decide), withReturns_feed, lines_backslash (by simp), lines_return]
  rw [Same, returns, lines_continued]

private theorem chars_continued (draft : Draft) :
    ((draft.withoutReturns.push [' ']).advance ['\n']).chars =
      Source.withoutReturns draft.chars ++ [' '] := by
  simp [chars_withoutReturns]

/-- A line that shows something goes on with the backslash in one reading and with a blank
in the other one. -/
theorem not_same_continued_shown (shown : Shown draft.chars) (rest : List Char) :
    ¬ Same draft ('\\' :: '\n' :: rest) := by
  intro same
  rw [same_continued_iff] at same
  have cleanShown := shown_withoutReturns shown
  rw [chars_withoutReturns] at cleanShown
  have slashShown : Shown (draft.push ['\\']).chars := by
    rw [chars_push]
    exact shown.append ['\\']
  have blankShown : Shown ((draft.withoutReturns.push [' ']).advance ['\n']).chars := by
    rw [chars_continued]
    exact cleanShown.append [' ']
  obtain ⟨more, lines, read⟩ := lines_shown slashShown ('\n' :: withReturns rest)
  obtain ⟨more', lines', read'⟩ := lines_shown blankShown rest
  rw [read, read', chars_continued, chars_push, List.append_assoc, List.append_assoc] at same
  have heads := congrArg Line.text (List.cons.inj same).1
  have blank := blank_of_same_trim cleanShown (by decide) (by decide) heads
  exact absurd (blank.1 '\\' List.mem_cons_self) (by decide)

/-- With the carriage return the backslash makes a line of its own. -/
theorem lines_slash (flat : draft.depth = 0) (rest : List Char) :
    (draft.push ['\\']).lines ('\n' :: withReturns rest) =
      ⟨draft.number, draft.indent, trim (draft.push ['\\']).chars⟩ ::
        (Draft.blank (draft.current + 1) (column (rest.takeWhile isIndent))).lines
          (withReturns (rest.dropWhile isIndent)) := by
  have slashShown : Shown (draft.push ['\\']).chars := by
    rw [chars_push]
    exact ⟨'\\', List.mem_append_right _ List.mem_cons_self, rfl⟩
  have slashFlat : (draft.push ['\\']).depth = 0 := flat
  rw [lines_feed slashFlat, finish_shown slashShown, (indent_withReturns rest).1,
    (indent_withReturns rest).2]
  rfl

private theorem blank_continued (none : Blank draft.chars) :
    Blank ((draft.withoutReturns.push [' ']).advance ['\n']).chars := by
  rw [chars_continued, ← chars_withoutReturns]
  intro c member
  rcases List.mem_append.mp member with before | here
  · exact blank_withoutReturns none c before
  · rw [List.mem_singleton.mp here]
    rfl

/-- What the next physical line shows begins there with the carriage return. Otherwise
nothing can begin on that line. -/
theorem not_same_continued_blank (begun : draft.number ≤ draft.current) (none : Blank draft.chars)
    (flat : draft.depth = 0) (plain : '\r' ∉ rest) : ¬ Same draft ('\\' :: '\n' :: rest) := by
  intro same
  rw [same_continued_iff] at same
  rw [lines_slash flat, List.map_cons] at same
  by_cases bare : isBare false rest = true
  · have first : ∃ line ∈ ((draft.withoutReturns.push [' ']).advance ['\n']).lines rest,
        line.number = draft.number := by
      rw [← same]
      exact ⟨_, List.mem_cons_self, rfl⟩
    obtain ⟨line, member, number⟩ := first
    have behind : draft.current + 1 < line.number :=
      lines_bare_numbers (blank_continued none) flat plain bare line member
    omega
  · let below := Draft.blank (draft.current + 1) (column (rest.takeWhile isIndent))
    have unbare : isBare (decide (0 < below.depth)) (rest.dropWhile isIndent) = false := by
      rw [isBare_indent]
      simpa [below, Draft.blank] using bare
    have stays : '\r' ∉ rest.dropWhile isIndent :=
      fun member => plain (List.dropWhile_subset _ member)
    obtain ⟨more, lines, _, read⟩ := lines_unbare stays unbare
    rw [read] at same
    have second : ∃ line ∈ ((draft.withoutReturns.push [' ']).advance ['\n']).lines rest,
        line.number = draft.current + 1 := by
      rw [← same]
      exact ⟨_, List.mem_cons_of_mem _ List.mem_cons_self, rfl⟩
    obtain ⟨line, member, number⟩ := second
    rcases lines_numbers rest line member with own | later
    · have first : line.number = draft.number := own
      omega
    · have reached : draft.current + 1 < line.number := later
      omega

/-- A backslash that joins two lines is lost with the line feed alone. -/
theorem not_same_continued (ready : Ready draft) (plain : '\r' ∉ rest) :
    ¬ Same draft ('\\' :: '\n' :: rest) := by
  rcases blank_or_shown draft.chars with none | shown
  · have flat : draft.depth = 0 :=
      Nat.eq_zero_of_not_pos fun deep => (ready.shown deep).not_blank none
    exact not_same_continued_blank ready.begun none flat plain
  · exact not_same_continued_shown shown rest

section Broken
variable {front behind : List Char}

/-- What has been read of a literal before it goes on behind a backslash. -/
theorem lines_broken (quote : isQuote c = true) (oneLine : '\n' ∉ front)
    (read : literalTail c (withReturns rest) = (front ++ ['\r'], '\n' :: withReturns behind))
    (draft : Draft) :
    draft.lines (withReturns (c :: rest)) =
      (draft.push (c :: front ++ ['\r'])).lines ('\n' :: withReturns behind) := by
  have still : (c :: front ++ ['\r']).count '\n' = 0 := by
    rw [List.count_eq_zero]
    simp [oneLine, Ne.symm (quote_ne quote).1]
  rw [withReturns_other (quote_ne quote).1, lines_literal quote, read, ← List.cons_append, advance,
    still]
  rfl

/-- The line of a draft with the part of a literal that both readings have. -/
def upTo (draft : Draft) (c : Char) (front : List Char) : List Char :=
  Source.withoutReturns draft.chars ++ c :: front

private theorem shown_upTo (quote : isQuote c = true) (draft : Draft) (front : List Char) :
    Shown (draft.upTo c front) := by
  refine ⟨c, List.mem_append_right _ List.mem_cons_self, ?_⟩
  rw [isQuote, Bool.or_eq_true, beq_iff_eq, beq_iff_eq] at quote
  rcases quote with rfl | rfl <;> rfl

private theorem chars_broken (plain : '\r' ∉ c :: front) (draft : Draft) :
    Source.withoutReturns (draft.push (c :: front ++ ['\r'])).chars = draft.upTo c front := by
  rw [chars_push, withoutReturns_append, withoutReturns_append, withoutReturns_of_plain plain,
    upTo]
  simp [Source.withoutReturns]

private theorem plain_parts (plain : '\r' ∉ c :: (front ++ '\n' :: behind)) :
    '\r' ∉ c :: front ∧ '\r' ∉ behind := by
  simp only [List.mem_cons, List.mem_append, not_or] at plain ⊢
  exact ⟨⟨plain.1, plain.2.1⟩, plain.2.2.2⟩

/-- A reading with line feeds alone goes on behind the whole literal. -/
theorem lines_joined (quote : isQuote c = true) (oneLine : '\n' ∉ front) {back after : List Char}
    (literal : literalTail c rest = (front ++ '\n' :: back, after)) (draft : Draft) :
    ∃ next : Draft, draft.withoutReturns.lines (c :: rest) = next.lines after ∧
      Continues draft.withoutReturns next (c :: (front ++ '\n' :: back)) ∧
      next.chars = draft.upTo c front ++ '\n' :: back ∧ next.depth = draft.depth ∧
      next.current = draft.current + (1 + back.count '\n') := by
  refine ⟨_, ?_, (Continues.push draft.withoutReturns _).advance (c :: (front ++ '\n' :: back)),
    ?_, rfl, ?_⟩
  · rw [lines_literal quote, literal]
  · simp [upTo, chars_withoutReturns]
  · have still : (c :: front).count '\n' = 0 := by
      rw [List.count_eq_zero]
      simp [oneLine, Ne.symm (quote_ne quote).1]
    have count : (c :: (front ++ '\n' :: back)).count '\n' = 1 + back.count '\n' := by
      rw [← List.cons_append, List.count_append, still, List.count_cons_self]
      omega
    exact congrArg (draft.current + ·) count

private theorem blank_feed {back : List Char} (blank : Blank back) : Blank ('\n' :: back) := by
  intro d member
  rcases List.mem_cons.mp member with rfl | member
  · decide
  · exact blank d member

/-- Inside of brackets the line goes on, with a blank in one reading and with what is left
of the literal in the other one. -/
theorem same_broken_deep (quote : isQuote c = true) (deep : 0 < draft.depth)
    (oneLine : '\n' ∉ front) (plain : '\r' ∉ c :: (front ++ '\n' :: behind))
    (literal : literalTail c rest =
      (front ++ '\n' :: (shortLiteral c behind).1, (shortLiteral c behind).2))
    (read : literalTail c (withReturns rest) = (front ++ ['\r'], '\n' :: withReturns behind)) :
    Same draft (c :: rest) ↔
      Blank (shortLiteral c behind).1 ∧ isBare true (shortLiteral c behind).2 = true := by
  have whole := shortLiteral_append c behind
  generalize (shortLiteral c behind).1 = back at literal whole ⊢
  generalize (shortLiteral c behind).2 = after at literal whole ⊢
  obtain ⟨joint, feeds, goes, jointChars, jointDepth, _⟩ := lines_joined quote oneLine literal draft
  obtain ⟨plainFront, plainBehind⟩ := plain_parts plain
  let split := ((draft.push (c :: front ++ ['\r'])).push [' ']).advance ['\n']
  have returns : draft.lines (withReturns (c :: rest)) = split.lines (withReturns behind) := by
    have inside : 0 < (draft.push (c :: front ++ ['\r'])).depth := deep
    rw [lines_broken quote oneLine read, lines_feed_inside inside]
  have splitChars : split.chars = (draft.push (c :: front ++ ['\r'])).chars ++ [' '] := by
    simp [split]
  have shown := shown_upTo quote draft front
  have cut := chars_broken plainFront draft
  have splitShown : Shown split.chars := by
    rw [splitChars]
    exact (shown_of_withoutReturns (cut ▸ shown)).append [' ']
  have jointShown : Shown joint.chars := by
    rw [jointChars]
    exact shown.append _
  rw [Same, returns, feeds]
  constructor
  · intro same
    -- Neither reading may show anything behind the place where they part.
    have nothing {more : List Char} {lines : List Line} (shows : split.lines (withReturns behind) =
        ⟨split.number, split.indent, trim (split.chars ++ more)⟩ :: lines) :
        Blank (Source.withoutReturns more) ∧ Blank back := by
      obtain ⟨more', lines', jointLines⟩ := lines_shown jointShown after
      rw [shows, jointLines, splitChars, jointChars, List.append_assoc, List.append_assoc] at same
      have heads := congrArg Line.text (List.cons.inj same).1
      rw [← cut] at heads shown
      have blank := blank_of_same_trim shown (by decide) (by decide) heads
      exact ⟨fun d member => blank.1 d (List.mem_cons_of_mem _ member),
        fun d member => blank.2 d (List.mem_cons_of_mem _ (List.mem_append_left _ member))⟩
    obtain ⟨more, lines, shows⟩ := lines_shown splitShown (withReturns behind)
    have blank : Blank back := (nothing shows).2
    refine ⟨blank, ?_⟩
    by_contra unbare
    have splitUnbare : isBare (decide (0 < split.depth)) behind = false := by
      have inside : 0 < split.depth := deep
      rw [decide_eq_true inside, ← whole, isBare_blank blank]
      simpa using unbare
    obtain ⟨more, lines, shown, shows⟩ := lines_unbare plainBehind splitUnbare
    exact (withoutReturns_shown shown).not_blank (nothing shows).1
  · rintro ⟨blank, bare⟩
    have splitBare : isBare true (withReturns behind) = true := by
      rw [isBare_withReturns, ← whole, isBare_blank blank, bare]
    have jointDeep : 0 < joint.depth := jointDepth ▸ deep
    rw [lines_bare splitShown deep splitBare, lines_bare jointShown jointDeep bare, goes.number,
      goes.indent, splitChars, jointChars, trim_append_blank (by decide),
      trim_append_blank (blank_feed blank), ← cut, trim_withoutReturns]
    rfl

private theorem ordinary_of_blank {blankLine : List Char} (blank : Blank blankLine)
    (oneLine : '\n' ∉ blankLine) (plain : '\r' ∉ blankLine) : ∀ d ∈ blankLine, Ordinary d :=
  fun d member => ordinary_of_isBlank (blank d member)
    ⟨fun same => plain (same ▸ member), fun same => oneLine (same ▸ member)⟩

private theorem finish_blank_line {blankLine : List Char} (blank : Blank blankLine)
    (number indent : Nat) : ((Draft.blank number indent).push blankLine).finish = [] :=
  finish_blank (by simpa using blank)

/-- A line that shows nothing is passed over. -/
theorem lines_blank_line {blankLine : List Char} (blank : Blank blankLine)
    (oneLine : '\n' ∉ blankLine) (plain : '\r' ∉ blankLine) (number indent : Nat)
    (rest : List Char) :
    (Draft.blank number indent).lines (withReturns (blankLine ++ '\n' :: rest)) =
      (Draft.blank (number + 1) (column (rest.takeWhile isIndent))).lines
        (withReturns (rest.dropWhile isIndent)) := by
  rw [withReturns_append, withReturns_oneLine oneLine, withReturns_feed,
    lines_pushed (ordinary_of_blank blank oneLine plain), lines_return, lines_feed rfl,
    finish_blank_line blank, (indent_withReturns rest).1, (indent_withReturns rest).2]
  rfl

private theorem lines_blank_end {blankLine : List Char} (blank : Blank blankLine)
    (oneLine : '\n' ∉ blankLine) (plain : '\r' ∉ blankLine) (number indent : Nat) :
    (Draft.blank number indent).lines (withReturns blankLine) = [] := by
  have read := lines_pushed (ordinary_of_blank blank oneLine plain) (Draft.blank number indent) []
  rw [List.append_nil, lines_nil, finish_blank_line blank] at read
  rw [withReturns_oneLine oneLine, read]

/-- Outside of brackets the line ends in the middle of the literal in a reading with
carriage returns. -/
theorem lines_parted (quote : isQuote c = true) (flat : draft.depth = 0)
    (oneLine : '\n' ∉ front) (plain : '\r' ∉ c :: front)
    (read : literalTail c (withReturns rest) = (front ++ ['\r'], '\n' :: withReturns behind)) :
    (draft.lines (withReturns (c :: rest))).map Line.withoutReturns =
      ⟨draft.number, draft.indent, trim (draft.upTo c front)⟩ ::
        ((Draft.blank (draft.current + 1) (column (behind.takeWhile isIndent))).lines
          (withReturns (behind.dropWhile isIndent))).map Line.withoutReturns := by
  have cut := chars_broken plain draft
  have shown : Shown (draft.push (c :: front ++ ['\r'])).chars :=
    shown_of_withoutReturns (cut ▸ shown_upTo quote draft front)
  have outside : (draft.push (c :: front ++ ['\r'])).depth = 0 := flat
  rw [lines_broken quote oneLine read, lines_feed outside, finish_shown shown,
    (indent_withReturns behind).1, (indent_withReturns behind).2, ← cut, trim_withoutReturns]
  rfl

/-- What is left of the literal is kept at the end of a line by one reading alone. -/
theorem blank_of_parted {back : List Char} {joint : Draft} {after : List Char} {line : Line}
    {below : List Line} (shown : Shown (draft.upTo c front))
    (chars : joint.chars = draft.upTo c front ++ '\n' :: back)
    (cut : line.text = trim (draft.upTo c front)) (same : line :: below = joint.lines after) :
    Blank back := by
  have jointShown : Shown joint.chars := by
    rw [chars]
    exact shown.append _
  obtain ⟨more, lines, shows⟩ := lines_shown jointShown after
  rw [shows, chars, List.append_assoc] at same
  have heads := congrArg Line.text (List.cons.inj same).1
  have nothing := blank_of_trim_append shown (heads.symm.trans cut)
  exact fun d member => nothing d (List.mem_cons_of_mem _ (List.mem_append_left _ member))

/-- Outside of brackets the line ends in one reading, and a new one begins. -/
theorem same_broken_flat (quote : isQuote c = true) (flat : draft.depth = 0)
    (oneLine : '\n' ∉ front) (plain : '\r' ∉ c :: (front ++ '\n' :: behind))
    (literal : literalTail c rest =
      (front ++ '\n' :: (shortLiteral c behind).1, (shortLiteral c behind).2))
    (read : literalTail c (withReturns rest) = (front ++ ['\r'], '\n' :: withReturns behind)) :
    Same draft (c :: rest) ↔ Blank (shortLiteral c behind).1 ∧
      ∀ more, (shortLiteral c behind).2 = '\n' :: more →
        Same (Draft.blank (draft.current + 2) (column (more.takeWhile isIndent)))
          (more.dropWhile isIndent) := by
  have whole := shortLiteral_append c behind
  have unclosed := fun blank : Blank (shortLiteral c behind).1 => shortLiteral_blank quote blank
  generalize (shortLiteral c behind).1 = back at literal whole unclosed ⊢
  generalize (shortLiteral c behind).2 = after at literal whole unclosed ⊢
  obtain ⟨joint, feeds, goes, jointChars, jointDepth, reached⟩ :=
    lines_joined quote oneLine literal draft
  obtain ⟨plainFront, plainBehind⟩ := plain_parts plain
  have shown := shown_upTo quote draft front
  have jointShown : Shown joint.chars := by
    rw [jointChars]
    exact shown.append _
  rw [Same, lines_parted quote flat oneLine plainFront read, feeds]
  by_cases blank : Blank back
  · have jointFirst : joint.finish = [⟨draft.number, draft.indent, trim (draft.upTo c front)⟩] := by
      rw [finish_shown jointShown, goes.number, goes.indent, jointChars,
        trim_append_blank (blank_feed blank)]
      rfl
    obtain ⟨backLine, ends⟩ := unclosed blank
    -- The indentation of the new line is the beginning of what is left of the literal.
    have unindented : Blank (back.dropWhile isIndent) ∧ '\n' ∉ back.dropWhile isIndent ∧
        '\r' ∉ back.dropWhile isIndent :=
      ⟨fun d member => blank d (List.dropWhile_subset _ member),
        fun member => backLine (List.dropWhile_subset _ member),
        fun member => plainBehind (whole ▸ List.mem_append_left _ (List.dropWhile_subset _ member))⟩
    rw [and_iff_right blank]
    rcases ends with rfl | ⟨more, rfl⟩
    · have below : behind.dropWhile isIndent = back.dropWhile isIndent := by
        rw [← whole, List.append_nil]
      rw [lines_nil, jointFirst, below, lines_blank_end unindented.1 unindented.2.1 unindented.2.2]
      simp
    · have below : behind.dropWhile isIndent = back.dropWhile isIndent ++ '\n' :: more := by
        rw [← whole, dropWhile_feed]
      have jointFlat : joint.depth = 0 := jointDepth.trans flat
      have jointCurrent : joint.current + 1 = draft.current + 2 := by
        rw [reached, List.count_eq_zero.mpr backLine]
      rw [lines_feed jointFlat, jointFirst, jointCurrent, below,
        lines_blank_line unindented.1 unindented.2.1 unindented.2.2, List.singleton_append,
        List.cons.injEq, and_iff_right rfl]
      constructor
      · intro same later next
        cases next
        exact same
      · exact fun same => same more rfl
  · exact ⟨fun same => absurd (blank_of_parted shown jointChars rfl same) blank,
      fun both => absurd both.1 blank⟩

/-- A literal that goes on behind a backslash is read the same when it is steady, given
that what comes behind the literal is. -/
theorem same_broken (quote : isQuote c = true) (single : rest.take 2 ≠ [c, c])
    (oneLine : '\n' ∉ front) (plain : '\r' ∉ c :: rest)
    (literal : literalTail c rest =
      (front ++ '\n' :: (shortLiteral c behind).1, (shortLiteral c behind).2))
    (read : literalTail c (withReturns rest) = (front ++ ['\r'], '\n' :: withReturns behind))
    (below : ∀ more, (shortLiteral c behind).2 = '\n' :: more → ∀ number indent,
      Same (Draft.blank number indent) (more.dropWhile isIndent) ↔
        isSteady 0 (more.dropWhile isIndent) = true) :
    Same draft (c :: rest) ↔ isSteady draft.depth (c :: rest) = true := by
  have whole := literalTail_append c rest
  rw [literal, List.append_assoc, List.cons_append, shortLiteral_append] at whole
  rw [← whole] at plain
  have passed : (front ++ '\n' :: (shortLiteral c behind).1).dropWhile (· ≠ '\n') =
      '\n' :: (shortLiteral c behind).1 := by
    have kept : ∀ d ∈ front, decide (d ≠ '\n') = true := fun d member => by
      simpa using fun same : d = '\n' => oneLine (same ▸ member)
    rw [List.dropWhile_append_of_pos kept, List.dropWhile_cons_of_neg (by decide)]
  have blank : isBlankLine ('\n' :: (shortLiteral c behind).1) = true ↔
      Blank (shortLiteral c behind).1 := by
    rw [isBlankLine, List.all_cons, show isBlank '\n' = true by decide, Bool.true_and,
      List.all_eq_true]
    rfl
  rw [isSteady_literal quote, literal, if_neg (by simp [single]), passed, Bool.and_eq_true, blank]
  by_cases flat : draft.depth = 0
  · rw [same_broken_flat quote flat oneLine plain literal read, if_pos flat]
    refine and_congr_right fun nothing => ?_
    rcases (shortLiteral_blank quote nothing).2 with ends | ⟨more, ends⟩
    · rw [ends]
      simp [isSteady]
    · rw [ends, isSteady_feed, ← isSteady_indent, ← below more ends (draft.current + 2)]
      constructor
      · exact fun same => same more rfl
      · intro same later next
        cases next
        exact same
  · rw [same_broken_deep quote (Nat.pos_of_ne_zero flat) oneLine plain literal read, if_neg flat]

end Broken

/-- A literal is read the same when it is steady, given that what comes behind it is. -/
theorem same_quote (quote : isQuote c = true) (ready : Ready draft) (plain : '\r' ∉ c :: rest)
    (below : ∀ (next : Draft) (later : List Char), Ready next → later <:+ rest →
      (Same next later ↔ isSteady next.depth later = true)) :
    Same draft (c :: rest) ↔ isSteady draft.depth (c :: rest) = true := by
  have whole := literalTail_append c rest
  have plainLiteral : '\r' ∉ (literalTail c rest).1 := fun member =>
    plain (List.mem_cons_of_mem _ (whole ▸ List.mem_append_left _ member))
  have behind : (literalTail c rest).2 <:+ rest := ⟨_, whole⟩
  -- What is read the same goes on behind the literal.
  have step {literal later : List Char}
      (read : literalTail c (withReturns rest) = (literal, later))
      (same : Source.withoutReturns literal = (literalTail c rest).1)
      (count : literal.count '\n' = (literalTail c rest).1.count '\n')
      (follows : ∀ draft : Draft, draft.lines later =
        draft.lines (withReturns (literalTail c rest).2))
      (steady : rest.take 2 = [c, c] ∨ '\n' ∉ (literalTail c rest).1) :
      Same draft (c :: rest) ↔ isSteady draft.depth (c :: rest) = true := by
    rw [same_literal quote read same count follows, isSteady_literal quote, if_pos steady]
    exact below _ _ ((ready.push _).advance _) behind
  by_cases triple : rest.take 2 = [c, c]
  · exact step (literalTail_long quote triple) (withoutReturns_withReturns plainLiteral)
      (count_withReturns _) (fun _ => rfl) (.inl triple)
  · have known := literalTail_short quote triple
    rcases literal : literalTail c rest with ⟨inside, after⟩
    rcases read : literalTail c (withReturns rest) with ⟨inside', after'⟩
    rw [literal] at plainLiteral
    rw [literal, read] at known
    simp only at known
    cases known with
    | same oneLine =>
      exact step read (by rw [literal]; exact withoutReturns_of_plain plainLiteral)
        (by rw [literal]) (fun _ => by rw [literal]) (.inr (by rwa [literal]))
    | ended oneLine =>
      refine step read ?_ ?_ (fun draft => ?_) (.inr (by rwa [literal]))
      · rw [literal, withoutReturns_append, withoutReturns_of_plain plainLiteral]
        simp [Source.withoutReturns]
      · rw [literal, List.count_append]
        rfl
      · rw [literal, withReturns_feed, lines_return]
    | broken behindLine oneLine =>
      refine same_broken quote triple oneLine plain literal read fun more next number indent => ?_
      refine below (Draft.blank number indent) _ (.blank number indent) ?_
      have after : (shortLiteral c behindLine).2 <:+ rest := by
        rw [literal] at behind
        exact behind
      rw [next] at after
      exact (List.dropWhile_suffix _).trans ((List.suffix_cons _ _).trans after)

/-- Reading goes on the same with either line end exactly from a steady place. -/
theorem same_iff_isSteady (ready : Ready draft) (plain : '\r' ∉ text) :
    Same draft text ↔ isSteady draft.depth text = true := by
  induction bound : text.length using Nat.strongRecOn generalizing text draft with
  | _ length shorter =>
    cases text with
    | nil => simp [same_nil, isSteady]
    | cons c rest =>
      rw [List.length_cons] at bound
      have step {next : Draft} {later : List Char} (readyNext : Ready next)
          (less : later.length ≤ rest.length) (part : later ⊆ c :: rest)
          (same : Same draft (c :: rest) ↔ Same next later)
          (steady : isSteady draft.depth (c :: rest) = isSteady next.depth later) :
          Same draft (c :: rest) ↔ isSteady draft.depth (c :: rest) = true := by
        rw [same, steady]
        exact shorter later.length (by omega) readyNext (fun member => plain (part member)) rfl
      have inside : rest ⊆ c :: rest := List.subset_cons_self c rest
      rcases kind_cases c with rfl | quote | opens | closes | rfl | rfl | rfl | ordinary
      · exact step ready (List.dropWhile_suffix _).length_le
          (List.Subset.trans (List.dropWhile_subset _) inside) (same_comment draft rest)
          (isSteady_comment _ rest)
      · refine same_quote quote ready plain fun next later readyNext part => ?_
        exact shorter later.length (by have less := part.length_le; omega) readyNext
          (fun member => plain (inside (part.subset member))) rfl
      · exact step (ready.nested (solid_of_isOpening opens) _) (Nat.le_refl _) inside
          (same_opening opens draft rest) (isSteady_opening opens _ rest)
      · exact step (ready.nested (solid_of_isClosing closes) _) (Nat.le_refl _) inside
          (same_closing closes draft rest) (isSteady_closing closes _ rest)
      · by_cases continued : rest.head? = some '\n'
        · obtain ⟨others, rfl⟩ := List.head?_eq_some_iff.mp continued
          rw [isSteady_continued]
          have other : ¬ Same draft ('\\' :: '\n' :: others) := not_same_continued ready
            fun member => plain (List.mem_cons_of_mem _ (List.mem_cons_of_mem _ member))
          simp [other]
        · exact step (ready.push ['\\']) (Nat.le_refl _) inside (same_backslash continued draft)
            (isSteady_backslash continued _)
      · exact absurd List.mem_cons_self plain
      · by_cases deep : 0 < draft.depth
        · exact step ((ready.push [' ']).advance ['\n']) (Nat.le_refl _) inside
            (same_feed_inside deep rest) (isSteady_feed _ rest)
        · have flat : draft.depth = 0 := Nat.eq_zero_of_not_pos deep
          refine step (.blank _ _) (List.dropWhile_suffix _).length_le
            (List.Subset.trans (List.dropWhile_subset _) inside) (same_feed flat rest) ?_
          rw [isSteady_feed, ← isSteady_indent, flat]
          rfl
      · exact step (ready.push [c]) (Nat.le_refl _) inside (same_ordinary ordinary draft rest)
          (isSteady_ordinary ordinary _ rest)

end Draft

/-- A source is read the same with either line end, but for the carriage returns that
literals keep, exactly when it is steady. -/
theorem lines_withReturns_iff {source : List Char} (plain : '\r' ∉ source) :
    (lines (withReturns source)).map Line.withoutReturns = lines source ↔
      isSteady 0 source = true := by
  have begun := indent_withReturns source
  have stays : '\r' ∉ source.dropWhile isIndent :=
    fun member => plain (List.dropWhile_subset _ member)
  have same := Draft.same_iff_isSteady
    (.blank 1 (column (source.takeWhile isIndent))) stays
  rw [lines, lines, begun.1, begun.2, ← isSteady_indent]
  exact same

/-- Brackets, comments and literals with three quotes run over lines. -/
def tupleSource : List Char :=
  "x = (1,  # \\\n  2)\ny = '''a\\\nb'''\nz = 'c\\n'\n".toList

theorem tuple_lines_same : '\r' ∉ tupleSource ∧
    (lines (withReturns tupleSource)).map Line.withoutReturns = lines tupleSource := by
  have plain : '\r' ∉ tupleSource := by decide
  exact ⟨plain, (lines_withReturns_iff plain).mpr (by decide +kernel)⟩

/-- A statement that runs on behind a backslash is cut in two. -/
theorem joined_lines_part :
    '\r' ∉ "x = \\\n  1\n".toList ∧ lines "x = \\\n  1\n".toList = [⟨1, 0, "x =    1".toList⟩] ∧
      (lines (withReturns "x = \\\n  1\n".toList)).map Line.withoutReturns =
        [⟨1, 0, "x = \\".toList⟩, ⟨2, 2, "1".toList⟩] := by
  decide +kernel

end ApiScribe.Source
