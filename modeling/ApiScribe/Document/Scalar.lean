import ApiScribe.Document.Basic
import ApiScribe.Expr.Number
import ApiScribe.Text.Digits

/-! YAML scalars for texts. A text stays plain where it is read back as the same
text; it is quoted where it would be read as something else, and a text of
several lines is a block. What cannot be printed forces escapes. -/
namespace ApiScribe.Document
open Text

/-- Plain words that are read as null or as a truth value. -/
def plainWords : List String :=
  ["", "~", "null", "Null", "NULL", "true", "True", "TRUE", "false", "False", "FALSE"]

/-- Plain words for the doubles that are no numbers, and for the infinite ones
with either sign. -/
def specialDoubles : List String :=
  ".nan" :: ".NaN" :: ".NAN" :: [".inf", ".Inf", ".INF"].flatMap fun word =>
    [word, "+" ++ word, "-" ++ word]

/-- Whether a text is an integer of 128 bits behind a mark for its base. -/
def isMarkedInteger (text : List Char) : Bool :=
  let (negative, body) := Expr.cutSign text
  let limit := if negative then Nat.pow 2 127 + 1 else Nat.pow 2 128
  [(['0', 'x'], 16), (['0', 'o'], 8), (['0', 'b'], 2)].any fun (mark, base) =>
    ((dropHead? mark body).bind (readIn? base)).any (· < limit)

/-- Whether a text is a run of digits that begins with a needless zero, with or
without a sign. It is no number and yet looks like one. -/
def hasNeedlessZero (text : List Char) : Bool :=
  match (Expr.cutSign text).2 with
  | '0' :: digit :: rest => (digit :: rest).all isDigit
  | _ => false

/-- Whether a text is a decimal number that a double can hold. -/
def isFiniteDecimal (text : List Char) : Bool :=
  match Expr.readDouble? text with
  | some ⟨_, .finite _ _⟩ => true
  | _ => false

/-- Whether a plain text is read as something else or looks as if it were. -/
def isMisread (text : List Char) : Bool :=
  plainWords.any (·.toList == text) || specialDoubles.any (·.toList == text) ||
    isMarkedInteger text || hasNeedlessZero text || isFiniteDecimal text

/-- Code points that a scalar may hold unescaped: all but the controls, the byte
order mark and what is no character. -/
def printable : List (Nat × Nat) :=
  [(0xA, 0xA), (0x20, 0x7E), (0xA0, 0xD7FF), (0xE000, 0xFEFE), (0xFF00, 0xFFFD),
    (0x10000, 0x10FFFF)]

def isPrintable (c : Char) : Bool := within printable c

/-- Characters that end a line within a scalar. -/
def isBreak (c : Char) : Bool := c == '\n' || c == '\u2028' || c == '\u2029'

/-- Characters that a plain scalar may not begin with. -/
def openingIndicators : List Char :=
  ['#', ',', '[', ']', '\x7b', '\x7d', '&', '*', '!', '|', '>', '\'', '"', '%', '@', '\x60']

/-- Whether the beginning of a text would be read as structure. -/
def opensStructure : List Char → Bool
  | '-' :: '-' :: '-' :: _ => true
  | '.' :: '.' :: '.' :: _ => true
  | c :: rest =>
    openingIndicators.contains c ||
      ((c == '?' || c == ':' || c == '-') && rest.head?.all (· == ' '))
  | [] => false

/-- Whether the end of a key or the beginning of a comment lies in a text. -/
def holdsStructure : List Char → Bool
  | ':' :: [] => true
  | ':' :: ' ' :: _ => true
  | ' ' :: '#' :: _ => true
  | _ :: rest => holdsStructure rest
  | [] => false

/-- Whether a character of the first kind stands right before one of the second. -/
def hasPair (first second : Char → Bool) : List Char → Bool
  | a :: b :: rest => (first a && second b) || hasPair first second (b :: rest)
  | _ => false

def isSpace (c : Char) : Bool := c == ' '

def allowsPlain (text : List Char) : Bool :=
  text.all (fun c => isPrintable c && !isBreak c) && !opensStructure text &&
    !holdsStructure text && !text.head?.any isSpace && !text.getLast?.any isSpace

/-- Blanks beside a line break would be lost between quotes. -/
def allowsQuotes (text : List Char) : Bool :=
  text.all isPrintable && !hasPair isBreak isSpace text && !hasPair isSpace isBreak text

/-- Blanks at the end of a line or of the text would be lost in a block. -/
def allowsBlock (text : List Char) : Bool :=
  text.all isPrintable && !hasPair isSpace isBreak text && !text.getLast?.any isSpace

/-- How a text is written. -/
inductive ScalarStyle where
  | plain
  | quoted
  | block
  | escaped
  deriving DecidableEq, Repr

/-- The simplest style that keeps a text. A text with line feeds is a block
rather than quoted. -/
def styleOf (text : List Char) : ScalarStyle :=
  if text.contains '\n' then if allowsBlock text then .block else .escaped
  else if !isMisread text && allowsPlain text then .plain
  else if allowsQuotes text then .quoted
  else .escaped

/-- Text with every line but the first indented, where `fresh` says that a line
has just begun. An empty line stays empty. -/
def indented (indent : Nat) : Bool → List Char → List Char
  | _, [] => []
  | fresh, c :: rest =>
    if isBreak c then c :: indented indent true rest
    else (if fresh then List.replicate indent ' ' else []) ++ c :: indented indent false rest

/-- A text between single quotes. -/
def quotedText (indent : Nat) (text : List Char) : List Char :=
  let body := indented indent false (replaceChar '\'' ['\'', '\''] text)
  '\'' :: body ++ (if text.getLast?.any isBreak then List.replicate indent ' ' else []) ++ ['\'']

/-- The letter that escapes a character, if it has one. -/
def escapeLetter? (c : Char) : Option Char :=
  [('\x00', '0'), ('\x07', 'a'), ('\x08', 'b'), ('\t', 't'), ('\n', 'n'), ('\x0b', 'v'),
    ('\x0c', 'f'), ('\r', 'r'), ('\x1b', 'e'), ('"', '"'), ('\\', '\\'), ('\x85', 'N'),
    ('\u2028', 'L'), ('\u2029', 'P')].lookup c

def escapedChar (c : Char) : List Char :=
  match escapeLetter? c with
  | some letter => ['\\', letter]
  | none =>
    if isPrintable c then [c]
    else
      let code := c.toNat
      let (mark, width) := if code < 0x100 then ('x', 2) else if code < 0x10000 then ('u', 4)
        else ('U', 8)
      '\\' :: mark :: (digitsOf 16 width code).map Char.toUpper

/-- What the head of a block says about the line ends at the end of the text:
none, one or more of them are part of it. -/
def chompMark (text : List Char) : List Char :=
  match text.reverse with
  | last :: before =>
    if !isBreak last then ['-']
    else if before.head?.all isBreak then ['+']
    else []
  | [] => ['-']

/-- A text as a block. The width of the indentation is given where the text
itself begins with a blank or a line end. -/
def blockText (indent : Nat) (text : List Char) : List Char :=
  let hint := if text.head?.any fun c => isSpace c || isBreak c then ['2'] else []
  '|' :: hint ++ chompMark text ++ '\n' :: indented indent true text

/-- A text as a scalar whose further lines are indented, with the end of its
last line. -/
def scalarText (indent : Nat) (text : List Char) : List Char :=
  match styleOf text with
  | .plain => text ++ ['\n']
  | .quoted => quotedText indent text ++ ['\n']
  | .escaped => '"' :: text.flatMap escapedChar ++ ['"', '\n']
  | .block => blockText indent text ++ (if text.getLast?.any isBreak then [] else ['\n'])

end ApiScribe.Document
