import ApiScribe.Text.Digits

/-! The lowest level of TOML text: blanks, line ends, comments, strings and
keys. A reader gives what it has read together with the rest of the text. -/
namespace ApiScribe.Toml
open Text

/-- Characters that may stand in a comment or string: all but the controls, of
which only the tab is allowed. -/
def isText (c : Char) : Bool := c == '\t' || (32 ≤ c.toNat && c.toNat ≠ 127)

def isSeparator (c : Char) : Bool := c == ' ' || c == '\t'

def skipSeparators (text : List Char) : List Char := text.dropWhile isSeparator

/-- The text after a line end. -/
def newline? : List Char → Option (List Char)
  | '\n' :: rest => some rest
  | '\r' :: '\n' :: rest => some rest
  | _ => none

/-- The text after the end of a line, before which a comment may stand. -/
def finishLine? (text : List Char) : Option (List Char) :=
  let text := match skipSeparators text with
    | '#' :: comment => comment.dropWhile isText
    | other => other
  if text.isEmpty then some [] else newline? text

/-- Skips separators, line ends and comments, where `comment` says that one has
begun. A comment ends with its line. -/
def skipLayout (comment : Bool) : List Char → Option (List Char)
  | [] => if comment then none else some []
  | '\n' :: rest => skipLayout false rest
  | '\r' :: '\n' :: rest => skipLayout false rest
  | c :: rest =>
    if comment then if isText c then skipLayout true rest else none
    else if isSeparator c then skipLayout false rest
    else if c = '#' then skipLayout true rest
    else some (c :: rest)

/-- The character of a code point, which may be no surrogate. -/
def charOf? (code : Nat) : Option Char :=
  if code.isValidChar then some (Char.ofNat code) else none

/-- The character that an escape stands for, and how many characters the escape
takes behind its backslash. -/
def escape? : List Char → Option (Char × Nat)
  | 'b' :: _ => some ('\x08', 1)
  | 't' :: _ => some ('\t', 1)
  | 'n' :: _ => some ('\n', 1)
  | 'f' :: _ => some ('\x0c', 1)
  | 'r' :: _ => some ('\r', 1)
  | '"' :: _ => some ('"', 1)
  | '\\' :: _ => some ('\\', 1)
  | 'u' :: rest => (spelled? 4 rest).map (·, 5)
  | 'U' :: rest => (spelled? 8 rest).map (·, 9)
  | _ => none
where
  /-- The character whose code point is spelled in a fixed number of digits. -/
  spelled? (width : Nat) (text : List Char) : Option Char :=
    if text.length < width then none else (readIn? 16 (text.take width)).bind charOf?

/-- Puts a character before what has been read. -/
def before (c : Char) (read : Option (List Char × List Char)) : Option (List Char × List Char) :=
  read.map fun (inside, rest) => (c :: inside, rest)

/-- A string after its quote, up to the quote that closes it. -/
def basicRest (text : List Char) : Option (List Char × List Char) :=
  match text with
  | [] => none
  | '"' :: rest => some ([], rest)
  | '\\' :: rest =>
    match escape? rest with
    | some (c, width) => before c (basicRest (rest.drop width))
    | none => none
  | c :: rest => if isText c then before c (basicRest rest) else none
termination_by text.length
decreasing_by all_goals simp only [List.length_cons, List.length_drop]; omega

/-- A string after three quotes, up to the three that close it. Up to two more
quotes before those belong to it. `joining` says that a backslash has joined
the line to the next one that holds something. -/
def longBasicRest (joining : Bool) (text : List Char) : Option (List Char × List Char) :=
  match text with
  | [] => none
  | '"' :: '"' :: '"' :: rest =>
    let inside := (rest.takeWhile (· == '"')).take 2
    some (inside, rest.drop inside.length)
  | '\n' :: rest => if joining then longBasicRest true rest else before '\n' (longBasicRest false rest)
  | '\r' :: '\n' :: rest =>
    if joining then longBasicRest true rest else before '\n' (longBasicRest false rest)
  | '\\' :: rest =>
    if (newline? (skipSeparators rest)).isSome then longBasicRest true rest
    else match escape? rest with
      | some (c, width) => before c (longBasicRest false (rest.drop width))
      | none => none
  | c :: rest =>
    if joining && isSeparator c then longBasicRest true rest
    else if isText c then before c (longBasicRest false rest)
    else none
termination_by text.length
decreasing_by all_goals simp only [List.length_cons, List.length_drop]; omega

/-- A string without escapes after its quote. -/
def literalRest : List Char → Option (List Char × List Char)
  | [] => none
  | '\'' :: rest => some ([], rest)
  | c :: rest => if isText c then before c (literalRest rest) else none

/-- A string without escapes after three quotes. -/
def longLiteralRest : List Char → Option (List Char × List Char)
  | [] => none
  | '\'' :: '\'' :: '\'' :: rest =>
    let inside := (rest.takeWhile (· == '\'')).take 2
    some (inside, rest.drop inside.length)
  | '\n' :: rest => before '\n' (longLiteralRest rest)
  | '\r' :: '\n' :: rest => before '\n' (longLiteralRest rest)
  | c :: rest => if isText c then before c (longLiteralRest rest) else none

/-- A string of any kind. A line end right after three quotes is dropped. -/
def readString? : List Char → Option (List Char × List Char)
  | '"' :: '"' :: '"' :: rest => longBasicRest false ((newline? rest).getD rest)
  | '\'' :: '\'' :: '\'' :: rest => longLiteralRest ((newline? rest).getD rest)
  | '"' :: rest => basicRest rest
  | '\'' :: rest => literalRest rest
  | _ => none

/-- Characters of a key without quotes. -/
def isKeyChar (c : Char) : Bool := c.isAlphanum || c == '_' || c == '-'

/-- One name of a key. -/
def readName? : List Char → Option (List Char × List Char)
  | '"' :: rest => basicRest rest
  | '\'' :: rest => literalRest rest
  | text =>
    let name := text.takeWhile isKeyChar
    if name.isEmpty then none else some (name, text.drop name.length)

/-- The names of a dotted key, of which there may be at most `room`. -/
def readNames? : Nat → List Char → Option (List String × List Char)
  | 0, _ => none
  | room + 1, text =>
    match readName? (skipSeparators text) with
    | none => none
    | some (name, rest) =>
      match skipSeparators rest with
      | '.' :: more =>
        (readNames? room more).map fun (names, rest) => (String.ofList name :: names, rest)
      | other => some ([String.ofList name], other)

/-- How deep values may nest and how many names a key may have. -/
def depthLimit : Nat := 79

/-- A key with the blanks around it. -/
def readKey? (text : List Char) : Option (List String × List Char) := readNames? depthLimit text

end ApiScribe.Toml
