import ApiScribe.Expr.Scan

/-! String literals. Adjacent literals are one string, as long as nothing but
blanks stands between them. -/
namespace ApiScribe.Expr
open Text

/-- Letters that may stand before the opening quote. -/
def isLiteralLetter (c : Char) : Bool := c ∈ ['r', 'R', 'b', 'B', 'u', 'U', 'f', 'F']

/-- The text that a literal's characters stand for. A backslash before a
character without a meaning of its own is kept. -/
def unescape : List Char → List Char
  | [] => []
  | '\\' :: 'n' :: rest => '\n' :: unescape rest
  | '\\' :: 't' :: rest => '\t' :: unescape rest
  | '\\' :: 'r' :: rest => '\r' :: unescape rest
  | '\\' :: '\\' :: rest => '\\' :: unescape rest
  | '\\' :: '\'' :: rest => '\'' :: unescape rest
  | '\\' :: '"' :: rest => '"' :: unescape rest
  | '\\' :: '\n' :: rest => unescape rest
  | '\\' :: c :: rest => '\\' :: c :: unescape rest
  | c :: rest => c :: unescape rest

/-- The characters between the quotes of a literal. Six characters are the
least that a pair of triple quotes takes; a literal that only opens with three
is read as one with single quotes. -/
def literalBody? (quote : Char) (literal : List Char) : Option (List Char) :=
  let triple := [quote, quote, quote]
  if 6 ≤ literal.length && triple.isPrefixOf literal && triple.isSuffixOf literal then
    some ((literal.drop 3).take (literal.length - 6))
  else if 2 ≤ literal.length && literal.getLast? == some quote then
    some ((literal.drop 1).take (literal.length - 2))
  else none

/-- Reads the literal at the beginning of a text and gives what follows it. -/
def readLiteral? (text : List Char) : Option (List Char × List Char) :=
  let letters := (text.take 2).takeWhile isLiteralLetter
  match text.drop letters.length with
  | [] => none
  | quote :: rest =>
    if isQuote quote then
      let (inside, after) := literalTail quote rest
      (literalBody? quote (quote :: inside)).map fun body =>
        (if letters.any fun c => c == 'r' || c == 'R' then body else unescape body, after)
    else none

theorem readLiteral?_length {text value after : List Char}
    (read : readLiteral? text = some (value, after)) : after.length < text.length := by
  unfold readLiteral? at read
  simp only at read
  split at read
  · simp at read
  · next quote rest same =>
    split at read
    · simp only [Option.map_eq_some_iff, Prod.mk.injEq] at read
      obtain ⟨body, _, _, rfl⟩ := read
      have shorter := literalTail_after_length_le quote rest
      have size := congrArg List.length same
      simp only [List.length_drop, List.length_cons] at size
      omega
    · simp at read

/-- Reads literals up to the end of a text that begins with no blank. -/
def readLiterals? (text : List Char) : Option (List Char) :=
  if text.isEmpty then some []
  else match _read : readLiteral? text with
    | none => none
    | some (value, after) => (readLiterals? (trimStart after)).map (value ++ ·)
termination_by text.length
decreasing_by
  have shorter := readLiteral?_length _read
  have trimmed := trimStart_length_le after
  omega

/-- The string that a text of literals denotes; none for any other text. -/
def readString? (text : List Char) : Option (List Char) :=
  match trim text with
  | [] => none
  | c :: rest => readLiterals? (c :: rest)

end ApiScribe.Expr
