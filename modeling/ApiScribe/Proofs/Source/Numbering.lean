import ApiScribe.Proofs.Source.Composition

/-! Numbers of logical lines. A line has the number of the physical line that it begins on,
whatever stands before: each line feed of the source is counted once, in a literal, in a
comment, between brackets, behind a backslash or at the end of a line. -/
namespace ApiScribe.Source
open Text ApiScribe.Expr

/-- A logical line begins on a physical line when its first character stands there with
nothing but blanks in front of it, or when backslashes join the physical line to the one
with that character. -/
inductive BeginsOn (line : Line) : List Char → Prop where
  | shown (first : line.text.head? = some c) : BeginsOn line (c :: rest)
  | blank (blank : isBlank c = true) (oneLine : c ≠ '\n') (behind : BeginsOn line rest) :
    BeginsOn line (c :: rest)
  | joined (behind : BeginsOn line rest) : BeginsOn line ('\\' :: '\n' :: rest)

variable {c : Char} {text rest indent : List Char} {row : List Piece} {draft : Draft}
  {line : Line} {earlier later : List Line} {number : Nat}

/-! The order of the numbers. -/

namespace Draft

private theorem finish_numbers (draft : Draft) :
    draft.finish = [] ∨ ∃ line, draft.finish = [line] ∧ line.number = draft.number := by
  rcases blank_or_shown draft.chars with none | shown
  · exact .inl (finish_blank none)
  · exact .inr ⟨_, finish_shown shown, rfl⟩

private theorem lines_increasing (reached : draft.number ≤ draft.current) (text : List Char) :
    (draft.lines text).Pairwise fun first second => first.number < second.number := by
  have finished (draft : Draft) :
      draft.finish.Pairwise fun first second => first.number < second.number := by
    rcases finish_numbers draft with none | ⟨line, one, _⟩
    · rw [none]
      exact .nil
    · rw [one]
      exact List.pairwise_singleton _ line
  induction draft, text using lines_induction with
  | nil draft =>
    rw [lines_nil]
    exact finished draft
  | @onward draft next more text rest goes same ih =>
    have onward : next.number ≤ next.current := by
      have passed := goes.current
      have kept := goes.number
      omega
    rw [same]
    exact ih onward
  | @ended draft indent text rest same ih =>
    rw [same, List.pairwise_append]
    refine ⟨finished draft, ih (Nat.le_refl _), ?_⟩
    intro first here second below
    have own : first.number = draft.number := by
      rcases finish_numbers draft with none | ⟨line, one, own⟩
      · rw [none] at here
        cases here
      · rw [one, List.mem_singleton] at here
        rw [here, own]
    have behind : second.number = draft.current + 1 ∨ draft.current + 1 < second.number :=
      lines_numbers rest second below
    omega

end Draft

/-! The beginning of a line. -/

private theorem linesFrom_numbers (number : Nat) (text : List Char) :
    ∀ line ∈ linesFrom number text, number ≤ line.number := by
  intro line member
  rcases Draft.lines_numbers _ line member with own | later
  · exact Nat.le_of_eq own.symm
  · exact Nat.le_of_lt later

private theorem head_trim {front more : List Char} (none : Blank front)
    (solid : isBlank c = false) :
    (trim (front ++ c :: more)).head? = some c := by
  have start : trimStart (front ++ c :: more) = c :: more := by
    rw [trimStart, List.dropWhile_append_of_pos none]
    exact List.dropWhile_cons_of_neg (by simp [solid])
  obtain ⟨back, some, ⟨cut, begins⟩, kept⟩ := trimEnd_shown (shown_cons solid more) []
  obtain ⟨first, others, rfl⟩ := List.exists_cons_of_ne_nil some
  rw [List.nil_append, List.nil_append] at kept
  rw [trim, start, kept, (List.cons.inj begins).1]
  rfl

/-- A draft with nothing on it is given up at a line feed, and what comes behind has other
numbers. -/
theorem Draft.lines_feed_apart (none : Blank draft.chars) (flat : draft.depth = 0)
    (reached : draft.number ≤ draft.current) (own : line.number = draft.number) :
    draft.lines ('\n' :: rest) ≠ line :: later := by
  intro read
  rw [lines_ended flat .feed, finish_blank none, List.nil_append] at read
  have member : line ∈ linesFrom (draft.current + 1) rest := by
    rw [read]
    exact List.mem_cons_self
  have behind := linesFrom_numbers _ _ line member
  omega

/-- A comment ends with its physical line or with the text. -/
theorem Draft.lines_comment_apart (none : Blank draft.chars) (flat : draft.depth = 0)
    (reached : draft.number ≤ draft.current) (own : line.number = draft.number) :
    draft.lines ('#' :: rest) ≠ line :: later := by
  intro read
  rw [lines_comment] at read
  rcases behind : rest.dropWhile (· ≠ '\n') with _ | ⟨d, more⟩
  · rw [behind, lines_nil, finish_blank none] at read
    cases read
  · have stops := List.head_dropWhile_not (· ≠ '\n') (by rw [behind]; simp)
    simp only [behind, List.head_cons] at stops
    obtain rfl : d = '\n' := by simpa using stops
    rw [behind] at read
    exact lines_feed_apart none flat reached own read

/-- The first character that a draft shows is the first one of its line. -/
theorem Draft.lines_solid_begin (none : Blank draft.chars) (solid : isBlank c = false)
    (uncommented : c ≠ '#') (alone : c = '\\' → rest.head? ≠ some '\n')
    (read : draft.lines (c :: rest) = line :: later) : BeginsOn line (c :: rest) := by
  obtain ⟨next, more, after, goes, same⟩ := lines_solid solid uncommented alone draft
  have shown : Shown next.chars := by
    rw [goes.chars]
    exact ⟨c, List.mem_append_right _ List.mem_cons_self, solid⟩
  obtain ⟨extra, others, whole⟩ := lines_shown shown after
  rw [same, whole] at read
  obtain ⟨rfl, _⟩ := List.cons.inj read
  refine .shown ?_
  rw [goes.chars, List.append_assoc]
  exact head_trim none solid

/-- A line that has the number of a draft with nothing on it begins where the draft is: the
draft cannot be given up at a line feed or a comment. -/
theorem Draft.lines_begin (none : Blank draft.chars) (flat : draft.depth = 0)
    (reached : draft.number ≤ draft.current) (read : draft.lines text = line :: later)
    (own : line.number = draft.number) : BeginsOn line text := by
  induction bound : text.length using Nat.strongRecOn generalizing text draft with
  | _ length shorter =>
    cases text with
    | nil =>
      rw [lines_nil, finish_blank none] at read
      cases read
    | cons c rest =>
      by_cases joins : c = '\\' ∧ rest.head? = some '\n'
      · obtain ⟨rfl, feed⟩ := joins
        obtain ⟨others, rfl⟩ := List.head?_eq_some_iff.mp feed
        rw [lines_continued] at read
        have still : Blank ((draft.push [' ']).advance ['\n']).chars := blank_push none rfl
        have less : others.length < length := by
          rw [← bound, List.length_cons, List.length_cons]
          omega
        exact .joined (shorter _ less still flat (Nat.le_succ_of_le reached) read own rfl)
      · have less : rest.length < length := bound ▸ Nat.lt_succ_self _
        by_cases blank : isBlank c = true
        · by_cases carriage : c = '\r'
          · rw [carriage, lines_return] at read
            rw [carriage]
            exact .blank rfl (by decide) (shorter _ less none flat reached read own rfl)
          · by_cases feed : c = '\n'
            · rw [feed] at read
              exact absurd read (lines_feed_apart none flat reached own)
            · rw [lines_ordinary (ordinary_of_isBlank blank ⟨carriage, feed⟩)] at read
              have still := blank_push none blank
              exact .blank blank feed (shorter _ less still flat reached read own rfl)
        · by_cases comment : c = '#'
          · rw [comment] at read
            exact absurd read (lines_comment_apart none flat reached own)
          · exact lines_solid_begin none (by simpa using blank) comment
              (fun slash feed => joins ⟨slash, feed⟩) read

private theorem BeginsOn.indented (indented : ∀ c ∈ indent, isIndent c = true)
    (begins : BeginsOn line rest) : BeginsOn line (indent ++ rest) := by
  induction indent with
  | nil => exact begins
  | cons c others ih =>
    obtain ⟨blank, oneLine⟩ := Draft.isIndent_cases (indented c List.mem_cons_self)
    exact .blank blank oneLine.2 (ih fun d member => indented d (List.mem_cons_of_mem _ member))

private theorem Row.indented (indented : ∀ c ∈ indent, isIndent c = true) (made : Row text row) :
    ∃ front, Row (indent ++ text) (front ++ row) ∧
      ∀ depth, depthBehind depth front = depth := by
  induction indent with
  | nil => exact ⟨[], made, fun _ => rfl⟩
  | cons c others ih =>
    obtain ⟨front, whole, same⟩ := ih fun d member => indented d (List.mem_cons_of_mem _ member)
    obtain ⟨blank, oneLine⟩ := Draft.isIndent_cases (indented c List.mem_cons_self)
    exact ⟨.other c :: front, .cons (.other (Draft.ordinary_of_isBlank blank oneLine)) whole, same⟩

/-! The place of a line in its source. -/

/-- Where `line` stands among the lines of a text that begins with the physical line `number`:
behind the lines before it, at the beginning of a physical line, and its number counts the
line feeds up to there. -/
def PlacedFrom (number : Nat) (text : List Char) (earlier : List Line) (line : Line) : Prop :=
  ∃ before rest, text = before ++ rest ∧ AtLineStart before ∧ linesFrom number before = earlier ∧
    BeginsOn line rest ∧ line.number = number + before.count '\n'

/-- The same for a text that goes on with the line of a draft. -/
def Draft.Places (draft : Draft) (text : List Char) (earlier : List Line) (line : Line) : Prop :=
  ∃ before rest row, text = before ++ rest ∧ Row before (row ++ [.feed]) ∧
    depthBehind draft.depth row = 0 ∧ draft.lines before = earlier ∧ BeginsOn line rest ∧
    line.number = draft.current + before.count '\n'

private theorem placedFrom_of
    (onLine : ∀ later, (Draft.blank number (column (text.takeWhile isIndent))).lines
        (text.dropWhile isIndent) = earlier ++ line :: later →
      (earlier = [] ∧ line.number = number) ∨
        (Draft.blank number (column (text.takeWhile isIndent))).Places
          (text.dropWhile isIndent) earlier line)
    (read : linesFrom number text = earlier ++ line :: later) :
    PlacedFrom number text earlier line := by
  have parts := List.takeWhile_append_dropWhile (p := isIndent) (l := text)
  have indented : ∀ c ∈ text.takeWhile isIndent, isIndent c = true :=
    fun c member => List.mem_takeWhile_imp member
  rw [linesFrom] at read
  rcases onLine _ read with ⟨rfl, own⟩ | ⟨before, rest, row, whole, made, flat, front, begins, same⟩
  · have begins : BeginsOn line (text.dropWhile isIndent) :=
      Draft.lines_begin (by simp [Blank]) rfl (Nat.le_refl _) read own
    have begins := begins.indented indented
    rw [parts] at begins
    exact ⟨[], text, rfl, .inl rfl, linesFrom_nil number, begins, own⟩
  · obtain ⟨blanks, longer, kept⟩ := made.indented indented
    rw [← List.append_assoc] at longer
    have closed : depthBehind 0 (blanks ++ row) = 0 := by
      rw [depthBehind, List.foldl_append]
      exact (congrArg (row.foldl Piece.depth) (kept 0)).trans flat
    obtain ⟨below, unindented, _⟩ := longer.unindent
    obtain ⟨indent, behind⟩ := indent_append unindented.ne_nil rest
    rw [List.append_assoc, ← whole, parts] at indent behind
    have cut : before = (text.takeWhile isIndent ++ before).dropWhile isIndent := by
      rw [whole] at behind
      exact List.append_cancel_right behind
    refine ⟨text.takeWhile isIndent ++ before, rest, ?_, .inr ⟨_, longer, closed⟩, ?_, begins, ?_⟩
    · rw [List.append_assoc, ← whole, parts]
    · rw [linesFrom, ← indent, ← cut]
      exact front
    · have uncounted := count_unindent (text.takeWhile isIndent ++ before)
      rw [← cut] at uncounted
      rw [same, uncounted]
      rfl

private theorem Draft.Places.behind_feed (flat : draft.depth = 0)
    (placed : PlacedFrom (draft.current + 1) text earlier line) :
    draft.Places ('\n' :: text) (draft.finish ++ earlier) line := by
  obtain ⟨before, rest, rfl, start, front, begins, same⟩ := placed
  have closed : draft.lines ('\n' :: before) = draft.finish ++ earlier := by
    rw [lines_ended flat .feed, front]
  obtain ⟨row, made, shut⟩ : ∃ row, Row ('\n' :: before) (row ++ [.feed]) ∧
      depthBehind draft.depth row = 0 := by
    rcases start with rfl | ⟨row, made, shut⟩
    · exact ⟨[], .cons .feed .nil, flat⟩
    · exact ⟨.feed :: row, .cons .feed made, flat ▸ shut⟩
  refine ⟨'\n' :: before, rest, row, rfl, made, shut, closed, begins, ?_⟩
  rw [same, List.count_cons_self]
  omega

/-- A line of a draft's text is the draft's own one or has a place behind a line feed. -/
theorem Draft.lines_placed (read : draft.lines text = earlier ++ line :: later) :
    (earlier = [] ∧ line.number = draft.number) ∨ draft.Places text earlier line := by
  induction draft, text using Draft.pieces_induction generalizing earlier later with
  | nil draft =>
    rw [lines_nil] at read
    rcases finish_numbers draft with none | ⟨last, one, own⟩
    · rw [none] at read
      cases earlier <;> cases read
    · rw [one] at read
      cases earlier with
      | nil =>
        obtain ⟨rfl, _⟩ := List.cons.inj read
        exact .inl ⟨rfl, own⟩
      | cons first others =>
        have none := (List.cons.inj read).2
        cases others <;> cases none
  | @taken draft piece text after first goes ih =>
    rw [lines_first first goes] at read
    rcases ih read with own | ⟨before, rest, row, rfl, made, flat, front, begins, same⟩
    · exact .inl own
    · have onward : First (piece.text ++ before) piece before :=
        first.stable (List.head?_append_of_ne_nil before made.ne_nil).symm
      refine .inr ⟨piece.text ++ before, rest, piece :: row, ?_, .cons onward made, flat, ?_,
        begins, ?_⟩
      · rw [first.whole, List.append_assoc]
      · rw [lines_first onward goes, front]
      · rw [same, take_current, List.count_append, Nat.add_assoc]
  | @ended draft text after first flat ih =>
    have placed {others : List Line}
        (read : linesFrom (draft.current + 1) after = others ++ line :: later) :
        draft.Places text (draft.finish ++ others) line := by
      rw [first.whole]
      exact .behind_feed flat (placedFrom_of (fun _ read => ih read) read)
    rw [lines_ended flat first] at read
    rcases finish_numbers draft with none | ⟨last, one, own⟩
    · rw [none] at read placed
      exact .inr (placed read)
    · rw [one] at read placed
      cases earlier with
      | nil =>
        obtain ⟨rfl, _⟩ := List.cons.inj read
        exact .inl ⟨rfl, own⟩
      | cons head others =>
        obtain ⟨rfl, below⟩ := List.cons.inj read
        exact .inr (placed below)

/-- Lines are numbered exactly: in increasing order, each with the number of the physical line
that it begins on. The place of a line is told by the lines before it, and a backslash, a
bracket, a literal or a comment there changes nothing but by its line feeds. -/
theorem numbers_exact (source : List Char) :
    (lines source).Pairwise (fun first second => first.number < second.number) ∧
      ∀ earlier line later, lines source = earlier ++ line :: later →
        ∃ before rest, source = before ++ rest ∧ AtLineStart before ∧ lines before = earlier ∧
          BeginsOn line rest ∧ line.number = 1 + before.count '\n' :=
  ⟨Draft.lines_increasing (Nat.le_refl 1) _, fun _ _ _ read =>
    placedFrom_of (fun _ read => Draft.lines_placed read) read⟩

/-- A literal over two physical lines, and a line behind it that is joined to an empty one. -/
def literalAbove : List Char := ['"', '"', '"', '\n', '"', '"', '"', '\n', '\\', '\n', 'b']

theorem literal_above_numbered :
    lines literalAbove = [⟨1, 0, ['"', '"', '"', '\n', '"', '"', '"']⟩] ++ ⟨3, 0, ['b']⟩ :: [] ∧
      ∃ before rest, literalAbove = before ++ rest ∧ AtLineStart before ∧
        lines before = [⟨1, 0, ['"', '"', '"', '\n', '"', '"', '"']⟩] ∧
        BeginsOn ⟨3, 0, ['b']⟩ rest ∧ 3 = 1 + before.count '\n' := by
  have read : lines literalAbove =
      [⟨1, 0, ['"', '"', '"', '\n', '"', '"', '"']⟩] ++ ⟨3, 0, ['b']⟩ :: [] := by
    decide +kernel
  exact ⟨read, (numbers_exact literalAbove).2 _ _ _ read⟩

end ApiScribe.Source
