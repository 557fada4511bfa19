import ApiScribe.Proofs.Source.Pieces

/-! Logical lines of a source that is put together from two. Where a logical line can
begin, nothing of what stands before is of account but the number of its line feeds. -/
namespace ApiScribe.Source
open Text ApiScribe.Expr

variable {c : Char} {text rest front : List Char} {piece : Piece} {row : List Piece}
  {draft : Draft}

/-- A logical line that begins some physical lines later. -/
def Line.later (count : Nat) (line : Line) : Line := { line with number := line.number + count }

/-! Numbers of lines that begin later. -/

namespace Draft

def later (count : Nat) (draft : Draft) : Draft :=
  { draft with number := draft.number + count, current := draft.current + count }

private theorem later_blank (number indent count : Nat) :
    (blank number indent).later count = blank (number + count) indent := rfl

private theorem later_take (draft : Draft) (count : Nat) (piece : Piece) :
    (draft.later count).take piece = (draft.take piece).later count := by
  simp [later, take, push, advance, Nat.add_right_comm]

private theorem finish_later (draft : Draft) (count : Nat) :
    (draft.later count).finish = draft.finish.map (Line.later count) := by
  simp only [finish, later]
  split <;> rfl

/-- A draft that begins on a later line gives the same lines, with later numbers. -/
private theorem lines_later (draft : Draft) (count : Nat) (text : List Char) :
    (draft.later count).lines text = (draft.lines text).map (Line.later count) := by
  induction draft, text using pieces_induction with
  | nil draft => rw [lines_nil, lines_nil, finish_later]
  | @taken draft piece text rest first goes ih =>
    have goes' : piece = .feed → 0 < (draft.later count).depth := goes
    rw [lines_first first goes, lines_first first goes', later_take, ih]
  | @ended draft text rest first flat ih =>
    have flat' : (draft.later count).depth = 0 := flat
    rw [lines_ended flat first, lines_ended flat' first, List.map_append, finish_later, linesFrom,
      linesFrom, ← ih, later_blank]
    simp [later, Nat.add_right_comm]

end Draft

private theorem linesFrom_later (number count : Nat) (text : List Char) :
    linesFrom (number + count) text = (linesFrom number text).map (Line.later count) := by
  rw [linesFrom, linesFrom, ← Draft.later_blank, Draft.lines_later]

/-! Reading goes on behind a place where a logical line begins. -/

theorem Row.unindent (made : Row text (row ++ [.feed])) :
    ∃ rest, Row (text.dropWhile isIndent) (rest ++ [.feed]) ∧
      ∀ depth, depthBehind depth rest = depthBehind depth row := by
  induction row generalizing text with
  | nil =>
    obtain ⟨after, first, later⟩ := made.uncons
    cases first
    exact ⟨[], .cons .feed later, fun _ => rfl⟩
  | cons piece row ih =>
    obtain ⟨c, others, rfl⟩ := List.exists_cons_of_ne_nil made.ne_nil
    by_cases indent : isIndent c = true
    · obtain ⟨blank, oneLine⟩ := Draft.isIndent_cases indent
      obtain ⟨after, first, later⟩ := made.uncons
      obtain ⟨rfl, rfl⟩ := first.of_ordinary (Draft.ordinary_of_isBlank blank oneLine)
      rw [List.dropWhile_cons_of_pos indent]
      exact ih later
    · rw [List.dropWhile_cons_of_neg indent]
      exact ⟨piece :: row, made, fun _ => rfl⟩

theorem count_unindent (text : List Char) :
    (text.dropWhile isIndent).count '\n' = text.count '\n' := by
  induction text with
  | nil => rfl
  | cons c rest ih =>
    by_cases indent : isIndent c = true
    · rw [List.dropWhile_cons_of_pos indent, ih,
        List.count_cons_of_ne (Draft.isIndent_cases indent).2.2]
    · rw [List.dropWhile_cons_of_neg indent]

/-- The indentation of a text stays the same when the text goes on. -/
theorem indent_append (some : text.dropWhile isIndent ≠ []) (rest : List Char) :
    (text ++ rest).takeWhile isIndent = text.takeWhile isIndent ∧
      (text ++ rest).dropWhile isIndent = text.dropWhile isIndent ++ rest := by
  have parts := List.takeWhile_append_dropWhile (p := isIndent) (l := text)
  have size := congrArg List.length parts
  have room := List.length_pos_iff.mpr some
  rw [List.length_append] at size
  rw [List.takeWhile_append, List.dropWhile_append, if_neg (by omega), if_neg (by simpa using some)]
  exact ⟨rfl, rfl⟩

/-- It is enough to look behind the indentation of the first line. -/
private theorem linesFrom_append_of (some : text.dropWhile isIndent ≠ [])
    (onLine : ∀ draft : Draft, draft.depth = 0 →
      draft.lines (text.dropWhile isIndent ++ rest) = draft.lines (text.dropWhile isIndent) ++
        linesFrom (draft.current + (text.dropWhile isIndent).count '\n') rest) (number : Nat) :
    linesFrom number (text ++ rest) =
      linesFrom number text ++ linesFrom (number + text.count '\n') rest := by
  obtain ⟨indent, behind⟩ := indent_append some rest
  rw [linesFrom, indent, behind, onLine _ rfl, count_unindent]
  rfl

/-- A line feed outside of brackets ends the line at which a draft is. -/
theorem Draft.lines_append (made : Row text (row ++ [.feed]))
    (flat : depthBehind draft.depth row = 0) (rest : List Char) :
    draft.lines (text ++ rest) =
      draft.lines text ++ linesFrom (draft.current + text.count '\n') rest := by
  induction bound : text.length using Nat.strongRecOn generalizing text row draft with
  | _ length shorter =>
    cases row with
    | nil =>
      obtain ⟨after, first, none⟩ := made.uncons
      cases none
      cases first
      have closed : draft.depth = 0 := flat
      rw [List.singleton_append, lines_ended closed .feed, lines_ended closed .feed, linesFrom_nil,
        List.append_nil]
      rfl
    | cons piece row =>
      obtain ⟨after, first, later⟩ := made.uncons
      have less : after.length < length := bound ▸ first.shorter
      have onward : First (text ++ rest) piece (after ++ rest) := by
        rw [first.whole, List.append_assoc]
        exact first.stable (List.head?_append_of_ne_nil after later.ne_nil)
      have count : text.count '\n' = piece.text.count '\n' + after.count '\n' := by
        rw [← List.count_append, ← first.whole]
      by_cases ends : piece = .feed ∧ draft.depth = 0
      · obtain ⟨rfl, closed⟩ := ends
        obtain ⟨below, unindented, same⟩ := later.unindent
        have fewer : (after.dropWhile isIndent).length < length :=
          Nat.lt_of_le_of_lt (List.dropWhile_suffix isIndent).length_le less
        have next := linesFrom_append_of unindented.ne_nil fun draft closed' =>
          shorter _ fewer unindented (by rw [closed', same, ← closed]; exact flat.trans closed.symm)
            rfl
        rw [lines_ended closed first, lines_ended closed onward, next, count,
          List.append_assoc, Nat.add_assoc]
        rfl
      · have goes : piece = .feed → 0 < draft.depth :=
          fun feed => Nat.pos_of_ne_zero fun closed => ends ⟨feed, closed⟩
        rw [lines_first first goes, lines_first onward goes, shorter _ less later flat rfl, count,
          take_current, Nat.add_assoc]

/-- Where no bracket, literal or backslash is open, reading starts anew. -/
private theorem AtLineStart.linesFrom_append (start : AtLineStart front) (number : Nat)
    (rest : List Char) :
    linesFrom number (front ++ rest) =
      linesFrom number front ++ linesFrom (number + front.count '\n') rest := by
  rcases start with rfl | ⟨row, made, flat⟩
  · rw [linesFrom_nil]
    rfl
  · obtain ⟨below, unindented, same⟩ := made.unindent
    exact linesFrom_append_of unindented.ne_nil (fun draft closed =>
      Draft.lines_append unindented (by rw [closed, same, flat]) rest) number

/-! Lines that say nothing. -/

/-- A physical line with nothing but blanks on it, or blanks and a comment. -/
structure Silent (line : List Char) : Prop where
  oneLine : '\n' ∉ line
  shows : ∃ blanks comment, line = blanks ++ comment ∧ Blank blanks ∧
    (comment = [] ∨ comment.head? = some '#')

/-- A text of whole physical lines. -/
def physical (lines : List (List Char)) : List Char := lines.flatMap (· ++ ['\n'])

private theorem Silent.tail (silent : Silent (c :: text)) (blank : isBlank c = true) :
    Silent text := by
  obtain ⟨oneLine, blanks, comment, whole, blankLine, commented⟩ := silent
  refine ⟨fun member => oneLine (List.mem_cons_of_mem c member), ?_⟩
  rcases blanks with _ | ⟨d, blanks⟩
  · rw [List.nil_append] at whole
    rw [← whole] at commented
    rcases commented with none | sign
    · cases none
    · cases sign
      cases blank
  · rw [List.cons_append] at whole
    obtain ⟨rfl, rfl⟩ := List.cons.inj whole
    exact ⟨blanks, comment, rfl, fun d member => blankLine d (List.mem_cons_of_mem _ member),
      commented⟩

private theorem Silent.unindent (silent : Silent text) : Silent (text.dropWhile isIndent) := by
  induction text with
  | nil => exact silent
  | cons c rest ih =>
    by_cases indent : isIndent c = true
    · rw [List.dropWhile_cons_of_pos indent]
      exact ih (silent.tail (Draft.isIndent_cases indent).1)
    · rwa [List.dropWhile_cons_of_neg indent]

/-- A silent line adds nothing to a draft that has nothing yet. -/
private theorem Draft.lines_silent (silent : Silent text) (none : Blank draft.chars)
    (flat : draft.depth = 0) (rest : List Char) :
    draft.lines (text ++ '\n' :: rest) = linesFrom (draft.current + 1) rest := by
  have ended {draft : Draft} (none : Blank draft.chars) (flat : draft.depth = 0) :
      draft.lines ('\n' :: rest) = linesFrom (draft.current + 1) rest := by
    rw [lines_ended flat .feed, finish_blank none, List.nil_append]
  induction text generalizing draft with
  | nil => exact ended none flat
  | cons c text ih =>
    by_cases blank : isBlank c = true
    · by_cases carriage : c = '\r'
      · rw [carriage, List.cons_append, lines_return]
        exact ih (silent.tail blank) none flat
      · have feed : c ≠ '\n' := by
          rintro rfl
          exact silent.oneLine List.mem_cons_self
        rw [List.cons_append, lines_ordinary (ordinary_of_isBlank blank ⟨carriage, feed⟩)]
        exact ih (silent.tail blank) (blank_push none blank) flat
    · obtain ⟨oneLine, blanks, comment, whole, blankLine, commented⟩ := silent
      obtain rfl : c = '#' := by
        rcases blanks with _ | ⟨d, blanks⟩
        · rw [List.nil_append] at whole
          rw [← whole] at commented
          rcases commented with none | sign
          · cases none
          · exact Option.some.inj sign
        · rw [List.cons_append] at whole
          obtain ⟨rfl, _⟩ := List.cons.inj whole
          exact absurd (blankLine c List.mem_cons_self) blank
      have passed : (text ++ '\n' :: rest).dropWhile (· ≠ '\n') = '\n' :: rest := by
        rw [List.dropWhile_append_of_pos fun c member => by
          simpa using fun same : c = '\n' => oneLine (List.mem_cons_of_mem _ (same ▸ member))]
        rfl
      rw [List.cons_append, lines_comment, passed]
      exact ended none flat

private theorem linesFrom_silent (silent : Silent text) (number : Nat) (rest : List Char) :
    linesFrom number (text ++ '\n' :: rest) = linesFrom (number + 1) rest := by
  rw [linesFrom, Draft.dropWhile_feed, Draft.lines_silent silent.unindent (by simp [Blank]) rfl]
  rfl

/-- Silent lines are counted and leave no logical line. -/
private theorem linesFrom_physical {silent : List (List Char)} (all : ∀ line ∈ silent, Silent line)
    (number : Nat) (rest : List Char) :
    linesFrom number (physical silent ++ rest) = linesFrom (number + silent.length) rest := by
  induction silent generalizing number with
  | nil => rfl
  | cons line others ih =>
    have next := ih (fun later member => all later (List.mem_cons_of_mem line member)) (number + 1)
    have whole : physical (line :: others) ++ rest = line ++ '\n' :: (physical others ++ rest) := by
      simp [physical]
    rw [whole, linesFrom_silent (all line List.mem_cons_self), next, List.length_cons]
    congr 1
    omega

/-- Behind a place where a logical line begins, the lines of a source are those of what stands
there, with other numbers. Blank lines and comments that are put there change nothing else. -/
theorem lines_composed (start : AtLineStart front) (rest : List Char) :
    lines (front ++ rest) = lines front ++ (lines rest).map (Line.later (front.count '\n')) ∧
      ∀ silent : List (List Char), (∀ line ∈ silent, Silent line) →
        lines (front ++ (physical silent ++ rest)) =
          lines front ++ (lines rest).map (Line.later (front.count '\n' + silent.length)) := by
  have composed (rest : List Char) : lines (front ++ rest) =
      lines front ++ (lines rest).map (Line.later (front.count '\n')) := by
    simp only [lines_eq_linesFrom]
    rw [start.linesFrom_append, linesFrom_later]
  refine ⟨composed rest, fun silent all => ?_⟩
  have inserted : lines (physical silent ++ rest) =
      (lines rest).map (Line.later silent.length) := by
    simp only [lines_eq_linesFrom]
    rw [linesFrom_physical all, linesFrom_later]
  have twice : Line.later (front.count '\n') ∘ Line.later silent.length =
      Line.later (front.count '\n' + silent.length) := by
    funext line
    simp [Line.later, Nat.add_assoc, Nat.add_comm silent.length]
  rw [composed, inserted, List.map_map, twice]

/-- A call over several lines, with a literal that looks like a comment and a comment that
looks like a literal. -/
def spreadCall : List Char :=
  ['f', '(', '\n', '\'', '#', '\'', ')', '#', '\'', '\n']

private theorem spread_call_ends : AtLineStart spreadCall := by
  have cut : literalTail '\'' (['#', '\''] ++ [')', '#', '\'', '\n']) =
      (['#', '\''], [')', '#', '\'', '\n']) := by
    decide
  have oneLine : '\n' ∉ ['\''] := by decide
  have behind : Row [')', '#', '\'', '\n'] [.closing ')', .comment ['#', '\''], .feed] :=
    .cons (.closing rfl) (.cons (.comment oneLine (.inr rfl)) (.cons .feed .nil))
  refine .inr ⟨[.other 'f', .opening '(', .feed, .literal ['\'', '#', '\''], .closing ')',
    .comment ['#', '\'']], ?_, rfl⟩
  exact .cons (.other (by decide)) (.cons (.opening rfl) (.cons .feed
    (.cons (.literal rfl cut) behind)))

theorem spread_call_composed :
    AtLineStart spreadCall ∧ (∀ line ∈ [" # note".toList], Silent line) ∧
      lines (spreadCall ++ (physical [" # note".toList] ++ "x = 1".toList)) =
        lines spreadCall ++ (lines "x = 1".toList).map (Line.later 3) := by
  have silent : ∀ line ∈ [" # note".toList], Silent line := by
    intro line member
    rw [List.mem_singleton.mp member]
    exact ⟨by decide, [' '], "# note".toList, by decide, by decide, .inr (by decide)⟩
  exact ⟨spread_call_ends, silent, (lines_composed spread_call_ends _).2 _ silent⟩

end ApiScribe.Source
