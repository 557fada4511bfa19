import ApiScribe.Proofs.Source.Lines

/-! Texts with a carriage return before each line feed, and what is read of them: the same
indentation, comments and literals with three quotes. A literal with one quote ends with
its line, even behind a backslash, which protects the carriage return only. -/
namespace ApiScribe.Source
open Text ApiScribe.Expr

variable {c : Char} {text rest inside after : List Char} {draft : Draft}

/-- A text with a carriage return before each line feed. -/
def withReturns (text : List Char) : List Char := replaceChar '\n' ['\r', '\n'] text

/-- A text without its carriage returns. -/
def withoutReturns (text : List Char) : List Char := text.filter (· ≠ '\r')

/-- A logical line without the carriage returns in it. -/
def Line.withoutReturns (line : Line) : Line :=
  { line with text := Source.withoutReturns line.text }

theorem withReturns_feed (rest : List Char) :
    withReturns ('\n' :: rest) = '\r' :: '\n' :: withReturns rest := rfl

theorem withReturns_other (other : c ≠ '\n') (rest : List Char) :
    withReturns (c :: rest) = c :: withReturns rest := by
  rw [withReturns, replaceChar, List.flatMap_cons, if_neg other]
  rfl

/-- Carriage returns are put in piece by piece. -/
theorem withReturns_append (front rest : List Char) :
    withReturns (front ++ rest) = withReturns front ++ withReturns rest :=
  List.flatMap_append

/-- A text without line feeds gets no carriage return. -/
theorem withReturns_oneLine (oneLine : '\n' ∉ text) : withReturns text = text := by
  induction text with
  | nil => rfl
  | cons c rest ih =>
    rw [List.mem_cons, not_or] at oneLine
    rw [withReturns_other (Ne.symm oneLine.1), ih oneLine.2]

/-- No text begins with a line feed that has a carriage return before it. -/
theorem head?_withReturns (text : List Char) : (withReturns text).head? ≠ some '\n' := by
  cases text with
  | nil => simp [withReturns, replaceChar]
  | cons c rest =>
    by_cases feed : c = '\n'
    · simp [feed, withReturns_feed]
    · rw [withReturns_other feed]
      simpa using feed

/-- The line feeds stay as many as they were, and with them the line numbers. -/
theorem count_withReturns (text : List Char) :
    (withReturns text).count '\n' = text.count '\n' := by
  induction text with
  | nil => rfl
  | cons c rest ih =>
    by_cases feed : c = '\n'
    · rw [feed, withReturns_feed, List.count_cons_of_ne (by decide), List.count_cons_self,
        List.count_cons_self, ih]
    · rw [withReturns_other feed, List.count_cons_of_ne feed, List.count_cons_of_ne feed, ih]

theorem withoutReturns_append (front rest : List Char) :
    withoutReturns (front ++ rest) = withoutReturns front ++ withoutReturns rest :=
  List.filter_append ..

/-- Taking carriage returns out does nothing where there are none. -/
theorem withoutReturns_of_plain (plain : '\r' ∉ text) : withoutReturns text = text :=
  List.filter_eq_self.mpr fun c member => by
    simpa using fun same : c = '\r' => plain (same ▸ member)

/-- Carriage returns that were put in can be taken out again, from a text that had none. -/
theorem withoutReturns_withReturns (plain : '\r' ∉ text) :
    withoutReturns (withReturns text) = text := by
  induction text with
  | nil => rfl
  | cons c rest ih =>
    rw [List.mem_cons, not_or] at plain
    by_cases feed : c = '\n'
    · rw [feed, withReturns_feed]
      exact congrArg ('\n' :: ·) (ih plain.2)
    · rw [withReturns_other feed, withoutReturns,
        List.filter_cons_of_pos (by simpa using Ne.symm plain.1)]
      exact congrArg (c :: ·) (ih plain.2)

/-- A carriage return is white space, so it makes no difference whether trimming or the removal of
carriage returns comes first. -/
theorem trim_withoutReturns (text : List Char) :
    trim (withoutReturns text) = withoutReturns (trim text) := by
  refine trim_filter (fun c dropped => ?_) text
  have carriage : c = '\r' := by simpa using dropped
  rw [carriage]
  decide

/-- A text with something to see shows it without its carriage returns too. -/
theorem withoutReturns_shown (shown : Shown text) : Shown (withoutReturns text) := by
  obtain ⟨c, member, solid⟩ := shown
  have other : c ≠ '\r' := by
    rintro rfl
    cases solid
  exact ⟨c, List.mem_filter.mpr ⟨member, by simpa using other⟩, solid⟩

theorem shown_of_withoutReturns (shown : Shown (withoutReturns text)) : Shown text := by
  obtain ⟨c, member, solid⟩ := shown
  exact ⟨c, (List.mem_filter.mp member).1, solid⟩

/-- A comment goes up to the next line feed, which the carriage return is not part of. -/
theorem comment_withReturns (rest : List Char) :
    (rest.dropWhile (· ≠ '\n') = [] ∧ (withReturns rest).dropWhile (· ≠ '\n') = []) ∨
      ∃ more, rest.dropWhile (· ≠ '\n') = '\n' :: more ∧
        (withReturns rest).dropWhile (· ≠ '\n') = '\n' :: withReturns more := by
  induction rest with
  | nil => exact .inl ⟨rfl, rfl⟩
  | cons c rest ih =>
    by_cases feed : c = '\n'
    · rw [feed]
      exact .inr ⟨rest, rfl, rfl⟩
    · rw [withReturns_other feed, List.dropWhile_cons_of_pos (by simpa using feed),
        List.dropWhile_cons_of_pos (by simpa using feed)]
      exact ih

/-- Indentation ends before any carriage return that was put in. -/
theorem indent_withReturns (text : List Char) :
    (withReturns text).takeWhile isIndent = text.takeWhile isIndent ∧
      (withReturns text).dropWhile isIndent = withReturns (text.dropWhile isIndent) := by
  induction text with
  | nil => exact ⟨rfl, rfl⟩
  | cons c rest ih =>
    by_cases feed : c = '\n'
    · rw [feed]
      exact ⟨rfl, rfl⟩
    · rw [withReturns_other feed]
      by_cases indent : isIndent c = true
      · rw [List.takeWhile_cons_of_pos indent, List.takeWhile_cons_of_pos indent,
          List.dropWhile_cons_of_pos indent, List.dropWhile_cons_of_pos indent, ih.1, ih.2]
        exact ⟨rfl, rfl⟩
      · rw [List.takeWhile_cons_of_neg indent, List.takeWhile_cons_of_neg indent,
          List.dropWhile_cons_of_neg indent, List.dropWhile_cons_of_neg indent,
          withReturns_other feed]
        exact ⟨rfl, rfl⟩

/-! Literals. -/

/-- How a literal of one line that goes up to `after` is read with carriage returns. Only
a line feed makes a difference, and there the literal ends. -/
inductive ReadAs (quote : Char) : List Char → List Char → List Char × List Char → Prop where
  /-- There is none in the literal or right behind it. -/
  | same {inside after : List Char} :
    '\n' ∉ inside → ReadAs quote inside after (inside, withReturns after)
  /-- The line ends where the literal does. -/
  | ended {inside more : List Char} : '\n' ∉ inside →
    ReadAs quote inside ('\n' :: more) (inside ++ ['\r'], '\n' :: withReturns more)
  /-- A backslash joined the line to the next one. -/
  | broken {front : List Char} (behind : List Char) : '\n' ∉ front →
    ReadAs quote (front ++ '\n' :: (shortLiteral quote behind).1) (shortLiteral quote behind).2
      (front ++ ['\r'], '\n' :: withReturns behind)

private theorem ReadAs.cons {quote : Char} {read : List Char × List Char}
    (known : ReadAs quote inside after read) (other : c ≠ '\n') :
    ReadAs quote (c :: inside) after (c :: read.1, read.2) := by
  have still {text : List Char} (oneLine : '\n' ∉ text) : '\n' ∉ c :: text := by
    simp [oneLine, Ne.symm other]
  cases known with
  | same oneLine => exact .same (still oneLine)
  | ended oneLine => exact .ended (still oneLine)
  | broken behind oneLine => exact .broken behind (still oneLine)

private theorem shortLiteral_withReturns (quote : isQuote c = true) (text : List Char) :
    ReadAs c (shortLiteral c text).1 (shortLiteral c text).2
      (shortLiteral c (withReturns text)) := by
  obtain ⟨notFeed, notReturn, notSlash⟩ := quote_ne quote
  fun_induction shortLiteral c text with
  | case1 => exact .same List.not_mem_nil
  | case2 d rest inside after same ih =>
    rw [withReturns_other (by decide)]
    by_cases feed : d = '\n'
    · have front : '\n' ∉ ['\\'] := by decide
      have known : ReadAs c _ _ _ := .broken rest front
      rw [feed, withReturns_feed, shortLiteral, shortLiteral_feed quote]
      rwa [same] at known
    · rw [withReturns_other feed, shortLiteral]
      rw [same] at ih
      exact (ih.cons feed).cons (by decide)
  | case3 rest _ =>
    rw [withReturns_other notFeed, shortLiteral_plain notSlash, if_pos rfl]
    exact .same (by simpa using Ne.symm notFeed)
  | case4 rest unescaped unquoted =>
    rw [withReturns_feed, shortLiteral_plain (by decide), if_neg (Ne.symm notReturn),
      if_neg (by decide), shortLiteral_feed quote]
    exact .ended List.not_mem_nil
  | case5 d rest unescaped unquoted oneLine inside after same ih =>
    have read : shortLiteral c (d :: withReturns rest) =
        (d :: (shortLiteral c (withReturns rest)).1, (shortLiteral c (withReturns rest)).2) := by
      by_cases slash : d = '\\'
      · cases rest with
        | nil =>
          rw [slash]
          simp [withReturns, replaceChar, shortLiteral, Ne.symm notSlash]
        | cons e others => exact absurd rfl (unescaped e others slash)
      · rw [shortLiteral_plain slash, if_neg unquoted, if_neg oneLine]
    rw [same] at ih
    rw [withReturns_other oneLine, read]
    exact ih.cons oneLine

/-- A literal that shows nothing was not closed on its line. -/
theorem shortLiteral_blank (quote : isQuote c = true) (blank : Blank (shortLiteral c text).1) :
    '\n' ∉ (shortLiteral c text).1 ∧
      ((shortLiteral c text).2 = [] ∨ ∃ more, (shortLiteral c text).2 = '\n' :: more) := by
  fun_induction shortLiteral c text with
  | case1 => exact ⟨List.not_mem_nil, .inl rfl⟩
  | case2 d rest inside after same ih => cases blank '\\' List.mem_cons_self
  | case3 rest _ =>
    have first := blank c List.mem_cons_self
    rw [isQuote, Bool.or_eq_true, beq_iff_eq, beq_iff_eq] at quote
    rcases quote with rfl | rfl <;> cases first
  | case4 rest _ _ => exact ⟨List.not_mem_nil, .inr ⟨rest, rfl⟩⟩
  | case5 d rest _ _ oneLine inside after same ih =>
    rw [same] at ih
    obtain ⟨still, ends⟩ := ih fun e member => blank e (List.mem_cons_of_mem _ member)
    exact ⟨by simpa [Ne.symm oneLine] using still, ends⟩

private theorem take_withReturns (quote : isQuote c = true) (rest : List Char) :
    (withReturns rest).take 2 = [c, c] ↔ rest.take 2 = [c, c] := by
  obtain ⟨notFeed, notReturn, _⟩ := quote_ne quote
  cases rest with
  | nil => exact Iff.rfl
  | cons first rest =>
    by_cases feed : first = '\n'
    · simp [feed, withReturns_feed, Ne.symm notFeed, Ne.symm notReturn]
    · rw [withReturns_other feed]
      cases rest with
      | nil => exact Iff.rfl
      | cons second rest =>
        by_cases feed : second = '\n'
        · simp [feed, withReturns_feed, Ne.symm notFeed, Ne.symm notReturn]
        · rw [withReturns_other feed]
          rfl

/-- Three quotes hold line ends of either kind. -/
theorem longLiteral_withReturns (quote : isQuote c = true) (text : List Char) :
    longLiteral c (withReturns text) =
      (withReturns (longLiteral c text).1, withReturns (longLiteral c text).2) := by
  obtain ⟨notFeed, notReturn, notSlash⟩ := quote_ne quote
  have feed (rest : List Char) : longLiteral c ('\n' :: rest) =
      ('\n' :: (longLiteral c rest).1, (longLiteral c rest).2) := by
    rw [longLiteral_plain (by decide), if_neg fun hit => notFeed hit.1.symm]
  have carriage (rest : List Char) : longLiteral c ('\r' :: rest) =
      ('\r' :: (longLiteral c rest).1, (longLiteral c rest).2) := by
    rw [longLiteral_plain (by decide), if_neg fun hit => notReturn hit.1.symm]
  fun_induction longLiteral c text with
  | case1 => rfl
  | case2 d rest inside after same ih =>
    have slash (text : List Char) : withReturns ('\\' :: text) = '\\' :: withReturns text :=
      withReturns_other (by decide) text
    rw [same] at ih
    rw [slash]
    by_cases ends : d = '\n'
    · rw [ends, withReturns_feed, longLiteral_escaped, feed, ih]
      rfl
    · rw [withReturns_other ends, longLiteral_escaped, ih]
      simp only [slash, withReturns_other ends]
  | case3 d rest unescaped closes =>
    have opens := List.take_append_drop 2 rest
    rw [closes.2] at opens
    have still (text : List Char) : withReturns (c :: text) = c :: withReturns text :=
      withReturns_other notFeed text
    rw [closes.1, ← opens]
    simp only [List.cons_append, List.nil_append, still]
    rw [longLiteral_plain notSlash, if_pos ⟨rfl, rfl⟩]
    rfl
  | case4 d rest unescaped unclosed inside after same ih =>
    rw [same] at ih
    by_cases ends : d = '\n'
    · rw [ends, withReturns_feed, carriage, feed, ih]
      rfl
    · have read : longLiteral c (d :: withReturns rest) =
          (d :: (longLiteral c (withReturns rest)).1, (longLiteral c (withReturns rest)).2) := by
        by_cases slash : d = '\\'
        · cases rest with
          | nil =>
            rw [slash]
            simp [withReturns, replaceChar, longLiteral]
          | cons e others => exact absurd rfl (unescaped e others slash)
        · rw [longLiteral_plain slash,
            if_neg fun hit => unclosed ⟨hit.1, (take_withReturns quote rest).mp hit.2⟩]
      rw [withReturns_other ends, read, ih, withReturns_other ends]

/-- A literal with three quotes goes over line ends of either kind and ends at the same quotes. -/
theorem literalTail_long (quote : isQuote c = true) (triple : rest.take 2 = [c, c]) :
    literalTail c (withReturns rest) =
      (withReturns (literalTail c rest).1, withReturns (literalTail c rest).2) := by
  have opens := List.take_append_drop 2 rest
  rw [triple] at opens
  have still (text : List Char) : withReturns (c :: text) = c :: withReturns text :=
    withReturns_other (quote_ne quote).1 text
  have dropped : (withReturns rest).drop 2 = withReturns (rest.drop 2) := by
    rw [← opens]
    simp only [List.cons_append, List.nil_append, still]
    rfl
  rw [literalTail, literalTail, if_pos ((take_withReturns quote rest).mpr triple), if_pos triple,
    dropped, longLiteral_withReturns quote]
  simp only [still]

/-- A literal with one quote is read up to its quote, or up to a line end, which may now come
earlier. -/
theorem literalTail_short (quote : isQuote c = true) (single : rest.take 2 ≠ [c, c]) :
    ReadAs c (literalTail c rest).1 (literalTail c rest).2
      (literalTail c (withReturns rest)) := by
  rw [literalTail, literalTail, if_neg single,
    if_neg fun triple => single ((take_withReturns quote rest).mp triple)]
  exact shortLiteral_withReturns quote rest

/-! Drafts with carriage returns. -/

namespace Draft

/-- A draft without the carriage returns in it. -/
def withoutReturns (draft : Draft) : Draft :=
  { draft with reversed := Source.withoutReturns draft.reversed }

theorem chars_withoutReturns (draft : Draft) :
    draft.withoutReturns.chars = Source.withoutReturns draft.chars := by
  simp [chars, withoutReturns, Source.withoutReturns]

theorem withoutReturns_push (draft : Draft) (more : List Char) :
    (draft.push more).withoutReturns =
      draft.withoutReturns.push (Source.withoutReturns more) := by
  simp [push, withoutReturns, Source.withoutReturns]

theorem withoutReturns_advance (draft : Draft) (passed : List Char) :
    (draft.advance passed).withoutReturns = draft.withoutReturns.advance passed := rfl

/-- Line numbers depend on the line feeds that were passed, not on what stands between them. -/
theorem advance_count {passed other : List Char} (same : passed.count '\n' = other.count '\n')
    (draft : Draft) : draft.advance passed = draft.advance other := by
  rw [advance, advance, same]

/-- A draft with something to see shows it without its carriage returns too. -/
theorem shown_withoutReturns (shown : Shown draft.chars) : Shown draft.withoutReturns.chars := by
  rw [chars_withoutReturns]
  exact withoutReturns_shown shown

/-- A blank draft is blank without its carriage returns. -/
theorem blank_withoutReturns (none : Blank draft.chars) : Blank draft.withoutReturns.chars := by
  rw [chars_withoutReturns]
  exact fun c member => none c (List.mem_filter.mp member).1

/-- A draft ends in the same logical line, up to carriage returns. -/
theorem finish_withoutReturns (draft : Draft) :
    draft.finish.map Line.withoutReturns = draft.withoutReturns.finish := by
  rcases blank_or_shown draft.chars with none | shown
  · rw [finish_blank none, finish_blank (blank_withoutReturns none)]
    rfl
  · rw [finish_shown shown, finish_shown (shown_withoutReturns shown), chars_withoutReturns,
      trim_withoutReturns]
    rfl

/-- What comes behind a comment is read the same. -/
theorem lines_behind_comment (draft : Draft) (rest : List Char) :
    draft.lines ((withReturns rest).dropWhile (· ≠ '\n')) =
      draft.lines (withReturns (rest.dropWhile (· ≠ '\n'))) := by
  rcases comment_withReturns rest with ⟨none, none'⟩ | ⟨more, next, next'⟩
  · rw [none, none']
    rfl
  · rw [next, next', withReturns_feed, lines_return]

end Draft

end ApiScribe.Source
