import ApiScribe.Text.Cut

/-! Docstrings. The margin that all lines after the first have in common is
layout of the source and no part of the text. It is counted in characters,
since blanks may take several bytes. -/
namespace ApiScribe.Source
open Text

/-- The common indentation of the lines that hold something. -/
def margin (lines : List (List Char)) : Nat :=
  (((lines.filter fun line => !isBlankLine line).map indentation).min?).getD 0

/-- A line without its margin and the blanks at its end. -/
def cleanLine (margin : Nat) (line : List Char) : List Char :=
  trimEnd (line.drop (min margin (indentation line)))

/-- The text of a docstring; none if it holds nothing but blanks. -/
def cleanDocstring? (raw : List Char) : Option (List Char) :=
  match lines raw with
  | [] => none
  | first :: others =>
    let cleaned := trim first :: others.map (cleanLine (margin others))
    match trim (joined ['\n'] cleaned) with
    | [] => none
    | c :: rest => some (c :: rest)

end ApiScribe.Source
