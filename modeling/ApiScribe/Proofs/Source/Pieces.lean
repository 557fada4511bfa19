import ApiScribe.Proofs.Source.Lines
import Mathlib.Data.List.Basic

/-! Source text as a row of pieces: comments, literals, brackets, line ends and single
characters. A piece is cut with the text behind it in view, of which only the next
character matters, and a reading of logical lines is a reading of pieces. -/
namespace ApiScribe.Source
open Text ApiScribe.Expr

/-- What a source text is made of. -/
inductive Piece where
  /-- A number sign with the rest of its physical line. -/
  | comment (text : List Char)
  | literal (text : List Char)
  | opening (c : Char)
  | closing (c : Char)
  /-- A backslash that joins the line to the next one. -/
  | joint
  | feed
  | carriage
  | other (c : Char)
  deriving DecidableEq

namespace Piece

/-- The characters of a piece. -/
def text : Piece → List Char
  | comment text => text
  | literal text => text
  | opening c => [c]
  | closing c => [c]
  | joint => ['\\', '\n']
  | feed => ['\n']
  | carriage => ['\r']
  | other c => [c]

/-- What a piece leaves on the logical line that it is part of. -/
def kept : Piece → List Char
  | comment _ => []
  | literal text => text
  | opening c => [c]
  | closing c => [c]
  | joint => [' ']
  | feed => [' ']
  | carriage => []
  | other c => [c]

/-- How many brackets are open behind a piece. A closing bracket too many is ignored. -/
def depth (before : Nat) : Piece → Nat
  | opening _ => before + 1
  | closing _ => before - 1
  | _ => before

end Piece

/-- `piece` is the first one of a text, and `rest` stands behind it. -/
inductive First : List Char → Piece → List Char → Prop where
  | comment (oneLine : '\n' ∉ text) (ends : rest = [] ∨ rest.head? = some '\n') :
    First ('#' :: (text ++ rest)) (.comment ('#' :: text)) rest
  | literal (quote : isQuote c = true) (cut : literalTail c (inside ++ rest) = (inside, rest)) :
    First (c :: (inside ++ rest)) (.literal (c :: inside)) rest
  | opening (opens : isOpening c = true) : First (c :: rest) (.opening c) rest
  | closing (closes : isClosing c = true) : First (c :: rest) (.closing c) rest
  | joint : First ('\\' :: '\n' :: rest) .joint rest
  | backslash (alone : rest.head? ≠ some '\n') : First ('\\' :: rest) (.other '\\') rest
  | carriage : First ('\r' :: rest) .carriage rest
  | feed : First ('\n' :: rest) .feed rest
  | other (plain : Draft.Ordinary c) : First (c :: rest) (.other c) rest

/-- A text is made of the pieces of a row. -/
inductive Row : List Char → List Piece → Prop where
  | nil : Row [] []
  | cons (first : First text piece rest) (behind : Row rest row) : Row text (piece :: row)

/-- How many brackets are open behind a row of pieces. -/
def depthBehind (before : Nat) (row : List Piece) : Nat := row.foldl Piece.depth before

/-- A place where a logical line begins: nothing stands before it, or a line feed that is
part of no literal, comment or joint, outside of all brackets. -/
def AtLineStart (front : List Char) : Prop :=
  front = [] ∨ ∃ row, Row front (row ++ [.feed]) ∧ depthBehind 0 row = 0

variable {c : Char} {text rest other front inside : List Char} {piece : Piece}
  {row more : List Piece} {draft : Draft}

/-! Rows of pieces. -/

theorem First.whole (first : First text piece rest) : text = piece.text ++ rest := by
  cases first <;> rfl

/-- A piece is the first one of a text whatever stands behind it, but for the next
character. -/
theorem First.stable (first : First text piece rest) (same : other.head? = rest.head?) :
    First (piece.text ++ other) piece other := by
  cases first with
  | comment oneLine ends =>
    refine .comment oneLine ?_
    rw [same]
    exact ends.imp (fun none => List.head?_eq_none_iff.mp (by rw [same, none]; rfl)) id
  | @literal c inside _ quote cut =>
    have same : other.head? = (literalTail c (inside ++ rest)).2.head? := by rw [cut, same]
    have stable := literalTail_stable quote (inside ++ rest) same
    rw [cut] at stable
    exact .literal quote stable
  | opening opens => exact .opening opens
  | closing closes => exact .closing closes
  | joint => exact .joint
  | backslash alone => exact .backslash (same ▸ alone)
  | carriage => exact .carriage
  | feed => exact .feed
  | other plain => exact .other plain

/-- A text with something in it has a first piece. -/
theorem exists_first (c : Char) (rest : List Char) :
    ∃ piece after, First (c :: rest) piece after ∧ after.length ≤ rest.length := by
  rcases Draft.kind_cases c with rfl | quote | opens | closes | rfl | rfl | rfl | plain
  · have parts := List.takeWhile_append_dropWhile (p := (· ≠ '\n')) (l := rest)
    have oneLine : '\n' ∉ rest.takeWhile (· ≠ '\n') := fun member => by
      simpa using List.mem_takeWhile_imp member
    have ends : rest.dropWhile (· ≠ '\n') = [] ∨
        (rest.dropWhile (· ≠ '\n')).head? = some '\n' := by
      rcases behind : rest.dropWhile (· ≠ '\n') with _ | ⟨d, more⟩
      · exact .inl rfl
      · have stops := List.head_dropWhile_not (· ≠ '\n') (by rw [behind]; simp)
        simp only [behind, List.head_cons] at stops
        exact .inr (by simpa using stops)
    have first := First.comment oneLine ends
    rw [parts] at first
    exact ⟨_, _, first, (List.dropWhile_suffix _).length_le⟩
  · have whole := literalTail_append c rest
    have cut : literalTail c ((literalTail c rest).1 ++ (literalTail c rest).2) =
        ((literalTail c rest).1, (literalTail c rest).2) := by rw [whole]
    have first := First.literal quote cut
    rw [whole] at first
    exact ⟨_, _, first, literalTail_after_length_le c rest⟩
  · exact ⟨_, rest, .opening opens, Nat.le_refl _⟩
  · exact ⟨_, rest, .closing closes, Nat.le_refl _⟩
  · by_cases continued : rest.head? = some '\n'
    · obtain ⟨others, rfl⟩ := List.head?_eq_some_iff.mp continued
      exact ⟨_, others, .joint, Nat.le_succ _⟩
    · exact ⟨_, rest, .backslash continued, Nat.le_refl _⟩
  · exact ⟨_, rest, .carriage, Nat.le_refl _⟩
  · exact ⟨_, rest, .feed, Nat.le_refl _⟩
  · exact ⟨_, rest, .other plain, Nat.le_refl _⟩

/-- A piece takes up at least a character. -/
theorem First.shorter (first : First text piece rest) : rest.length < text.length := by
  rw [first.whole, List.length_append]
  cases first <;> simp [Piece.text]

/-- A character that is kept and does nothing else is a piece by itself. -/
theorem First.of_ordinary (plain : Draft.Ordinary c) (first : First (c :: text) piece rest) :
    piece = .other c ∧ rest = text := by
  cases first with
  | comment _ _ => exact absurd rfl plain.uncommented
  | literal quote _ => exact absurd quote (by simp [plain.unquoted])
  | opening opens => exact absurd opens (by simp [plain.unopened])
  | closing closes => exact absurd closes (by simp [plain.unclosed])
  | joint => exact absurd rfl plain.solid
  | backslash _ => exact ⟨rfl, rfl⟩
  | carriage => exact absurd rfl plain.oneLine.1
  | feed => exact absurd rfl plain.oneLine.2
  | other _ => exact ⟨rfl, rfl⟩

/-- A row of pieces is read one piece after the other. -/
theorem Row.uncons (made : Row text (piece :: row)) :
    ∃ rest, First text piece rest ∧ Row rest row := by
  cases made with
  | cons first behind => exact ⟨_, first, behind⟩

theorem Row.ne_nil (made : Row text (row ++ piece :: more)) : text ≠ [] := by
  cases row with
  | nil =>
    obtain ⟨rest, first, _⟩ := made.uncons
    cases first <;> exact List.cons_ne_nil _ _
  | cons before row =>
    obtain ⟨rest, first, _⟩ := made.uncons
    cases first <;> exact List.cons_ne_nil _ _

namespace Draft

/-- What a draft becomes when a piece is read that does not end its line. -/
def take (draft : Draft) (piece : Piece) : Draft :=
  { (draft.push piece.kept).advance piece.text with depth := piece.depth draft.depth }

private theorem advance_oneLine (oneLine : '\n' ∉ text) (draft : Draft) :
    draft.advance text = draft := by
  rw [advance, List.count_eq_zero.mpr oneLine, Nat.add_zero]

/-- A piece that does not end the line is taken. -/
theorem lines_first (first : First text piece rest) (goes : piece = .feed → 0 < draft.depth) :
    draft.lines text = (draft.take piece).lines rest := by
  cases first with
  | @comment text _ oneLine ends =>
    have passed : (text ++ rest).dropWhile (· ≠ '\n') = rest := by
      rw [List.dropWhile_append_of_pos fun c member => by
        simpa using fun same : c = '\n' => oneLine (same ▸ member)]
      rcases ends with rfl | next
      · rfl
      · obtain ⟨more, rfl⟩ := List.head?_eq_some_iff.mp next
        rfl
    have still : '\n' ∉ '#' :: text := by simpa using oneLine
    rw [lines_comment, passed, take]
    simp only [Piece.kept, Piece.text, advance_oneLine still]
    rfl
  | @literal c inside _ quote cut =>
    rw [lines_literal quote, cut]
    rfl
  | @opening c _ opens =>
    have still : '\n' ∉ [c] := by simp [Ne.symm (solid_ne (solid_of_isOpening opens)).1]
    rw [lines_opening opens, take]
    simp only [Piece.kept, Piece.text, Piece.depth, advance_oneLine still]
  | @closing c _ closes =>
    have still : '\n' ∉ [c] := by simp [Ne.symm (solid_ne (solid_of_isClosing closes)).1]
    rw [lines_closing closes, take]
    simp only [Piece.kept, Piece.text, Piece.depth, advance_oneLine still]
  | joint => exact lines_continued draft rest
  | backslash alone => exact lines_backslash alone draft
  | carriage => exact lines_return draft rest
  | feed => exact lines_feed_inside (goes rfl) rest
  | @other c _ plain =>
    have still : '\n' ∉ [c] := by simp [Ne.symm plain.oneLine.2]
    rw [lines_ordinary plain, take]
    simp only [Piece.kept, Piece.text, Piece.depth, advance_oneLine still]
    rfl

@[simp] theorem take_current (draft : Draft) (piece : Piece) :
    (draft.take piece).current = draft.current + piece.text.count '\n' := rfl

end Draft

/-- The logical lines of a text that begins at the beginning of a physical line. -/
def linesFrom (number : Nat) (text : List Char) : List Line :=
  (Draft.blank number (column (text.takeWhile isIndent))).lines (text.dropWhile isIndent)

/-- A source is read as a text whose first line has number one. -/
theorem lines_eq_linesFrom (source : List Char) : lines source = linesFrom 1 source := rfl

theorem linesFrom_nil (number : Nat) : linesFrom number [] = [] := by
  rw [linesFrom]
  exact Draft.lines_nil _

/-- Outside of brackets a line feed ends the logical line, and the next one begins with a number
that counts all the line feeds before it. -/
theorem Draft.lines_ended (flat : draft.depth = 0) (first : First text .feed rest) :
    draft.lines text = draft.finish ++ linesFrom (draft.current + 1) rest := by
  cases first
  exact lines_feed flat rest

/-- Induction over the pieces of a reading: each is taken by the draft or ends its line. -/
@[elab_as_elim]
theorem Draft.pieces_induction {motive : Draft → List Char → Prop}
    (nil : ∀ draft, motive draft [])
    (taken : ∀ {draft piece text rest}, First text piece rest →
      (piece = .feed → 0 < draft.depth) → motive (draft.take piece) rest → motive draft text)
    (ended : ∀ {draft text rest}, First text .feed rest → draft.depth = 0 →
      motive (blank (draft.current + 1) (column (rest.takeWhile isIndent)))
        (rest.dropWhile isIndent) → motive draft text)
    (draft : Draft) (text : List Char) : motive draft text := by
  induction bound : text.length using Nat.strongRecOn generalizing text draft with
  | _ length shorter =>
    rcases text with _ | ⟨c, text⟩
    · exact nil draft
    · obtain ⟨piece, rest, first, _⟩ := exists_first c text
      have less : rest.length < length := bound ▸ first.shorter
      by_cases ends : piece = .feed ∧ draft.depth = 0
      · obtain ⟨rfl, flat⟩ := ends
        have below : (rest.dropWhile isIndent).length < length :=
          Nat.lt_of_le_of_lt (List.dropWhile_suffix isIndent).length_le less
        exact ended first flat (shorter _ below _ _ rfl)
      · have goes : piece = .feed → 0 < draft.depth :=
          fun feed => Nat.pos_of_ne_zero fun flat => ends ⟨feed, flat⟩
        exact taken first goes (shorter _ less _ rest rfl)

end ApiScribe.Source
