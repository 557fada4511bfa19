import ApiScribe.Expr.Scan

/-! Logical lines of a source text. A logical line runs over line breaks inside
brackets and literals and after a backslash, and holds no comment. Its number
and indentation are those of the physical line that it begins on. -/
namespace ApiScribe.Source
open Text ApiScribe.Expr

/-- A logical line. -/
structure Line where
  number : Nat
  indent : Nat
  text : List Char
  deriving DecidableEq, Repr

/-- What has been read of the logical line that is being put together. The
characters are held in reverse, and `current` is the physical line reached. -/
structure Draft where
  number : Nat
  indent : Nat
  depth : Nat
  current : Nat
  reversed : List Char

namespace Draft

/-- A line of which nothing has been read. -/
def blank (number indent : Nat) : Draft := ⟨number, indent, 0, number, []⟩

def push (draft : Draft) (text : List Char) : Draft :=
  { draft with reversed := text.reverse ++ draft.reversed }

/-- Moves on by the line feeds of a text. -/
def advance (draft : Draft) (text : List Char) : Draft :=
  { draft with current := draft.current + text.count '\n' }

/-- The finished line, unless nothing but blanks is on it. -/
def finish (draft : Draft) : List Line :=
  match trim draft.reversed.reverse with
  | [] => []
  | c :: rest => [⟨draft.number, draft.indent, c :: rest⟩]

end Draft

def isIndent (c : Char) : Bool := c == ' ' || c == '\t' || c == '\x0c'

/-- The column after indentation. A tab goes to the next multiple of eight. -/
def column (indent : List Char) : Nat :=
  indent.foldl (fun column c => if c = '\t' then (column / 8 + 1) * 8 else column + 1) 0

/-- The logical lines of a text whose first line has been read up to `draft`. -/
def Draft.lines (draft : Draft) : List Char → List Line
  | [] => draft.finish
  | c :: rest =>
    if c = '#' then draft.lines (rest.dropWhile (· ≠ '\n'))
    else if isQuote c then
      let literal := c :: (literalTail c rest).1
      ((draft.push literal).advance literal).lines (literalTail c rest).2
    else if isOpening c then
      Draft.lines { draft.push [c] with depth := draft.depth + 1 } rest
    else if isClosing c then
      Draft.lines { draft.push [c] with depth := draft.depth - 1 } rest
    else if c = '\\' ∧ rest.head? = some '\n' then
      ((draft.push [' ']).advance ['\n']).lines (rest.drop 1)
    else if c = '\r' then draft.lines rest
    else if c = '\n' then
      if 0 < draft.depth then ((draft.push [' ']).advance ['\n']).lines rest
      else
        draft.finish ++
          (Draft.blank (draft.current + 1) (column (rest.takeWhile isIndent))).lines
            (rest.dropWhile isIndent)
    else (draft.push [c]).lines rest
termination_by text => text.length
decreasing_by
  all_goals simp only [List.length_cons, List.length_drop]
  · have shorter := (List.dropWhile_suffix (· ≠ '\n') (l := rest)).length_le
    omega
  · have shorter := literalTail_after_length_le c rest
    omega
  · omega
  · omega
  · omega
  · omega
  · omega
  · have shorter := (List.dropWhile_suffix isIndent (l := rest)).length_le
    omega
  · omega

/-- The logical lines of a source text. -/
def lines (source : List Char) : List Line :=
  (Draft.blank 1 (column (source.takeWhile isIndent))).lines (source.dropWhile isIndent)

end ApiScribe.Source
