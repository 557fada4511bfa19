import ApiScribe.Proofs.Integers
import ApiScribe.Text.Digits
import ApiScribe.TypeScript.Expr
import Mathlib.Data.Nat.Init

/-! A reader of type expressions. Names, literals and what stands in round
brackets are operands; a pair of square brackets makes an array of the operand
before it alone, and a bar ends that operand and begins the next member of the
union. The reader keeps what is open around the place that it has reached, so
that every text has at most one reading. -/
namespace ApiScribe.TypeScript
open Text

/-- A type as it is understood. -/
inductive TypeForm where
  | name (text : String)
  | literal (value : ChoiceValue)
  | applied (name : String) (arguments : List TypeForm)
  | array (item : TypeForm)
  | union (members : List TypeForm)

namespace TypeForm

/-- A union of members, where a single one is itself. -/
def ofMembers : List TypeForm → TypeForm
  | [only] => only
  | members => .union members

end TypeForm

/-- A word of the notation: an operand, a name whose arguments follow, or a mark. -/
inductive Token where
  | operand (form : TypeForm)
  | applying (name : String)
  | brackets
  | bar
  | opening
  | closing
  | comma
  | greater

/-- The characters that end a line. -/
def lineTerminators : List Char := ['\n', '\r', '\u2028', '\u2029']

/-- The characters that no literal holds as they are: the quote ends it, the
backslash begins an escape, and a line may not end inside of a literal. -/
def unwritten : List Char := ['\'', '\\', '\n', '\r', '\u2028', '\u2029']

/-- The character of a string literal that a text begins with. -/
def stringChar? : List Char → Option (Char × List Char)
  | '\\' :: '\\' :: rest => some ('\\', rest)
  | '\\' :: '\'' :: rest => some ('\'', rest)
  | '\\' :: 'n' :: rest => some ('\n', rest)
  | '\\' :: 'r' :: rest => some ('\r', rest)
  | '\\' :: 'u' :: a :: b :: c :: d :: rest =>
    (readIn? 16 [a, b, c, d]).map fun code => (Char.ofNat code, rest)
  | c :: rest => if c ∈ unwritten then none else some (c, rest)
  | [] => none

private theorem stringChar?_length {text rest : List Char}
    (read : stringChar? text = some (c, rest)) :
    rest.length < text.length := by
  rw [stringChar?.eq_def] at read
  split at read
  case h_5 =>
    obtain ⟨code, _, same⟩ := Option.map_eq_some_iff.mp read
    cases same
    simp only [List.length_cons]
    omega
  case h_6 =>
    split at read
    · cases read
    · cases read
      simp
  case h_7 => cases read
  all_goals
    cases read
    simp only [List.length_cons]
    omega

/-- The text of a string literal behind its opening quote, and what follows its
closing one. -/
def stringBody? (text : List Char) : Option (List Char × List Char) :=
  match _read : stringChar? text with
  | some (c, rest) => (stringBody? rest).map fun (value, after) => (c :: value, after)
  | none =>
    match text with
    | '\'' :: after => some ([], after)
    | _ => none
termination_by text.length
decreasing_by exact stringChar?_length _read

private theorem stringBody?_length {text value after : List Char}
    (read : stringBody? text = some (value, after)) : after.length < text.length := by
  fun_induction stringBody? text generalizing value with
  | case1 text c rest found ih =>
    obtain ⟨⟨below, _⟩, inner, same⟩ := Option.map_eq_some_iff.mp read
    cases same
    exact Nat.lt_trans (ih inner) (stringChar?_length found)
  | case2 rest found =>
    cases read
    simp
  | case3 => cases read

def isWordStart (c : Char) : Bool := isLetter c || c == '_'

def isWordPart (c : Char) : Bool := isAlphanumeric c || c == '_'

/-- The word that a text begins with. -/
def wordToken (text : List Char) : Token × List Char :=
  let word := text.takeWhile isWordPart
  match text.drop word.length with
  | '<' :: after => (.applying (String.ofList word), after)
  | after => (.operand (.name (String.ofList word)), after)

/-- The number that a text begins with, behind a minus sign or without one. -/
def numberToken? (negative : Bool) (text : List Char) : Option (Token × List Char) :=
  let digits := text.takeWhile isDigit
  (Expr.readDigits? digits).map fun (magnitude : Nat) =>
    (.operand (.literal (.int (if negative then -magnitude else magnitude))),
      text.drop digits.length)

/-- The marks of one character. -/
def marks : List (Char × Token) :=
  [('|', .bar), ('(', .opening), (')', .closing), (',', .comma), ('>', .greater)]

/-- The first token of a text that begins with no blank. -/
def token? : List Char → Option (Token × List Char)
  | [] => none
  | '[' :: ']' :: rest => some (.brackets, rest)
  | '\'' :: rest =>
    (stringBody? rest).map fun (text, after) =>
      (.operand (.literal (.str (String.ofList text))), after)
  | '-' :: rest => numberToken? true rest
  | c :: rest =>
    match marks.lookup c with
    | some mark => some (mark, rest)
    | none =>
      if isWordStart c then some (wordToken (c :: rest))
      else if isDigit c then numberToken? false (c :: rest)
      else none

private theorem isWordPart_of_isWordStart (starts : isWordStart c = true) :
    isWordPart c = true := by
  rw [isWordStart, Bool.or_eq_true] at starts
  rcases starts with letter | underscore
  · rw [isWordPart, isAlphanumeric_of_isLetter letter, Bool.true_or]
  · rw [isWordPart, underscore, Bool.or_true]

private theorem wordToken_length {rest after : List Char} (starts : isWordStart c = true)
    (read : wordToken (c :: rest) = (token, after)) : after.length < (c :: rest).length := by
  have word : (c :: rest).takeWhile isWordPart = c :: rest.takeWhile isWordPart :=
    List.takeWhile_cons_of_pos (isWordPart_of_isWordStart starts)
  rw [wordToken] at read
  simp only [word, List.length_cons, List.drop_succ_cons] at read ⊢
  have dropped : (rest.drop (rest.takeWhile isWordPart).length).length ≤ rest.length := by
    rw [List.length_drop]
    omega
  split at read
  · next opened =>
    cases read
    rw [opened, List.length_cons] at dropped
    omega
  · cases read
    omega

private theorem numberToken?_length {text after : List Char} {negative : Bool}
    (read : numberToken? negative text = some (token, after)) : after.length < text.length := by
  obtain ⟨magnitude, digits, same⟩ := Option.map_eq_some_iff.mp read
  cases same
  have some : text.takeWhile isDigit ≠ [] := by
    intro none
    rw [none] at digits
    cases digits
  have size := congrArg List.length (List.takeWhile_append_dropWhile (p := isDigit) (l := text))
  have positive := List.length_pos_iff.mpr some
  rw [List.length_append] at size
  rw [List.length_drop]
  omega

private theorem token?_length {text after : List Char} (read : token? text = some (token, after)) :
    after.length < text.length := by
  rw [token?.eq_def] at read
  split at read
  · cases read
  · cases read
    simp only [List.length_cons]
    omega
  · obtain ⟨⟨value, rest⟩, body, same⟩ := Option.map_eq_some_iff.mp read
    cases same
    exact Nat.lt_succ_of_lt (stringBody?_length body)
  · exact Nat.lt_succ_of_lt (numberToken?_length read)
  · split at read
    · cases read
      exact Nat.lt_succ_self _
    · split at read
      · next starts => exact wordToken_length starts (Option.some.inj read)
      · split at read
        · exact numberToken?_length read
        · cases read

/-- The tokens of a text; none if a part of it is no token. -/
def tokens? (text : List Char) : Option (List Token) :=
  match _shown : text.dropWhile (· == ' ') with
  | [] => some []
  | c :: rest =>
    match _read : token? (c :: rest) with
    | none => none
    | some (token, after) => (tokens? after).map (token :: ·)
termination_by text.length
decreasing_by
  have shorter := token?_length _read
  have trimmed := (List.dropWhile_suffix (l := text) (· == ' ')).length_le
  rw [_shown] at trimmed
  omega

/-- What a union in progress stands in. -/
inductive Surrounding where
  | group
  | arguments (name : String) (before : List TypeForm)

/-- A reading of a part of a text: what is open, innermost first, each with the
members of the union around it, the members of the innermost union and the
operand that ends the text so far. -/
structure Reading where
  outer : List (Surrounding × List TypeForm) := []
  members : List TypeForm := []
  operand : Option TypeForm := none

namespace Reading

/-- The union in progress, if it may end here. -/
def closed? (reading : Reading) : Option TypeForm :=
  reading.operand.map fun last => .ofMembers (reading.members ++ [last])

/-- Opens a surrounding at a place where an operand is due. -/
def into (reading : Reading) (surrounding : Surrounding) : Reading :=
  { outer := (surrounding, reading.members) :: reading.outer }

/-- A reading with one more token; none where the token may not stand. -/
def step? (reading : Reading) : Token → Option Reading
  | .operand form =>
    if reading.operand.isNone then some { reading with operand := some form } else none
  | .applying name =>
    if reading.operand.isNone then some (reading.into (.arguments name [])) else none
  | .opening => if reading.operand.isNone then some (reading.into .group) else none
  | .brackets => reading.operand.map fun item => { reading with operand := some (.array item) }
  | .bar =>
    reading.operand.map fun member =>
      { reading with members := reading.members ++ [member], operand := none }
  | .closing =>
    match reading.outer, reading.closed? with
    | (.group, members) :: outer, some inner => some { outer, members, operand := some inner }
    | _, _ => none
  | .comma =>
    match reading.outer, reading.closed? with
    | (.arguments name before, members) :: outer, some inner =>
      some { outer := (.arguments name (before ++ [inner]), members) :: outer }
    | _, _ => none
  | .greater =>
    match reading.outer, reading.closed? with
    | (.arguments name before, members) :: outer, some inner =>
      some { outer, members, operand := some (.applied name (before ++ [inner])) }
    | _, _ => none

end Reading

/-- The type that a text is read as; none if it is no type as a whole. -/
def readType? (text : String) : Option TypeForm := do
  let tokens ← tokens? text.toList
  let reading ← tokens.foldlM Reading.step? {}
  if reading.outer.isEmpty then reading.closed? else none

end ApiScribe.TypeScript
