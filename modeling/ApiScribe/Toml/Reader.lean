import ApiScribe.Toml.Line
import ApiScribe.Toml.Number

/-! Reading TOML. A document is read line by line into the table that the last
header has opened; it is valid as a whole or not at all. -/
namespace ApiScribe.Toml
open Text

mutual

/-- A value and the text behind it. Values may nest `room` levels deep. -/
def readValue : Nat → Nat → List Char → Option (Toml × List Char)
  | 0, _, _ => none
  | fuel + 1, room, text =>
    match text, room with
    | '[' :: rest, room + 1 =>
      (readItems fuel room rest).map fun (items, rest) => (.array items, rest)
    | '\x7b' :: rest, room + 1 =>
      match skipSeparators rest with
      | '\x7d' :: rest => some (.table .braces [], rest)
      | rest => (readEntries fuel room [] rest).map fun (entries, rest) =>
        (.table .braces entries, rest)
    | text, _ =>
      match text.head? with
      | some '"' | some '\'' =>
        (readString? text).map fun (inside, rest) => (.str (String.ofList inside), rest)
      | _ => readPlain? text

/-- The items of an array up to its closing bracket. A comma may follow the
last one. -/
def readItems : Nat → Nat → List Char → Option (List Toml × List Char)
  | 0, _, _ => none
  | fuel + 1, room, text =>
    match skipLayout false text with
    | none => none
    | some (']' :: rest) => some ([], rest)
    | some text =>
      match readValue fuel room text with
      | none => none
      | some (item, rest) =>
        match skipLayout false rest with
        | some (',' :: rest) =>
          (readItems fuel room rest).map fun (items, rest) => (item :: items, rest)
        | some (']' :: rest) => some ([item], rest)
        | _ => none

/-- The entries between braces up to the closing one. No comma may follow the
last one, and all of them stand on one line. -/
def readEntries : Nat → Nat → Entries → List Char → Option (Entries × List Char)
  | 0, _, _, _ => none
  | fuel + 1, room, entries, text =>
    match readKey? text with
    | some (path, '=' :: rest) =>
      match readValue fuel room (skipSeparators rest) with
      | none => none
      | some (value, rest) =>
        match assign value path entries, skipSeparators rest with
        | some entries, ',' :: rest => readEntries fuel room entries rest
        | some entries, '\x7d' :: rest => some (entries, rest)
        | _, _ => none
    | _ => none

end

/-- A value at the beginning of a text. Every step of reading takes a character
off the text or goes one level down, so twice its length is enough of them. -/
def readValue? (text : List Char) : Option (Toml × List Char) :=
  readValue (2 * text.length + 2) depthLimit text

/-- Reads one line into the table of a section. It gives the section that holds
from there on, all entries and the rest of the text. -/
def readLine? (header : List String) (root : Entries) (text : List Char) :
    Option (List String × Entries × List Char) :=
  match text with
  | '#' :: _ | '\n' :: _ | '\r' :: _ => (finishLine? text).map fun rest => (header, root, rest)
  | '[' :: '[' :: rest =>
    match readKey? rest with
    | some (path, ']' :: ']' :: rest) => do
      let rest ← finishLine? rest
      let root ← openHeader openItem path root
      some (path, root, rest)
    | _ => none
  | '[' :: rest =>
    match readKey? rest with
    | some (path, ']' :: rest) => do
      let rest ← finishLine? rest
      let root ← openHeader openTable path root
      some (path, root, rest)
    | _ => none
  | _ =>
    match readKey? text with
    | some (path, '=' :: rest) => do
      let (value, rest) ← readValue? (skipSeparators rest)
      let rest ← finishLine? rest
      let root ← within (assign value path) header root
      some (header, root, rest)
    | _ => none

/-- Reads line after line. -/
def readLines : Nat → List String → Entries → List Char → Option Entries
  | 0, _, _, _ => none
  | fuel + 1, header, root, text =>
    match skipSeparators text with
    | [] => some root
    | text =>
      match readLine? header root text with
      | some (header, root, rest) => readLines fuel header root rest
      | none => none

/-- The entries of a document, before which a byte order mark may stand. Each
line takes at least one character. -/
def ofText? (text : String) : Option Entries :=
  let text := match text.toList with
    | '\ufeff' :: rest => rest
    | other => other
  readLines (text.length + 1) [] [] text

end ApiScribe.Toml
