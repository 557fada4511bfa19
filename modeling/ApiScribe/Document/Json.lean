import ApiScribe.Document.Basic
import ApiScribe.Text.Digits

/-! JSON text of documents, two blanks for each level. Only what a string may
not hold is escaped; letters of every script are written as they are. -/
namespace ApiScribe.Document
open Text

/-- A character inside a JSON string. -/
def jsonChar (c : Char) : List Char :=
  if c = '"' then ['\\', '"']
  else if c = '\\' then ['\\', '\\']
  else if c = '\n' then ['\\', 'n']
  else if c = '\r' then ['\\', 'r']
  else if c = '\t' then ['\\', 't']
  else if c = '\x08' then ['\\', 'b']
  else if c = '\x0c' then ['\\', 'f']
  else if c.toNat < 32 then '\\' :: 'u' :: digitsOf 16 4 c.toNat
  else [c]

def jsonString (text : String) : List Char := '"' :: text.toList.flatMap jsonChar ++ ['"']

/-- The beginning of a line at a level. -/
def lineAt (level : Nat) : List Char := '\n' :: List.replicate (2 * level) ' '

/-- Items of the level above between brackets. Without items nothing stands
between the brackets. -/
def enclosed (opening closing : Char) (level : Nat) (items : List (List Char)) : List Char :=
  if items.isEmpty then [opening, closing]
  else opening :: joined [','] (items.map (lineAt (level + 1) ++ ·)) ++ lineAt level ++ [closing]

mutual

def jsonChars (level : Nat) : Document → List Char
  | .null => "null".toList
  | .bool value => boolText value
  | .int value => intText value
  | .str text => jsonString text
  | .seq items => enclosed '[' ']' level (jsonItems (level + 1) items)
  | .map entries => enclosed '\x7b' '\x7d' level (jsonEntries (level + 1) entries)

def jsonItems (level : Nat) : List Document → List (List Char)
  | [] => []
  | item :: rest => jsonChars level item :: jsonItems level rest

def jsonEntries (level : Nat) : List (String × Document) → List (List Char)
  | [] => []
  | (key, value) :: rest =>
    (jsonString key ++ ':' :: ' ' :: jsonChars level value) :: jsonEntries level rest

end

/-- A document as JSON. -/
def json (document : Document) : String := String.ofList (jsonChars 0 document)

end ApiScribe.Document
