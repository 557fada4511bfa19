import ApiScribe.Document.Scalar

/-! YAML text of documents in block style. Keys are plain; the dashes of a
sequence stand below the first letter of its key. -/
namespace ApiScribe.Document
open Text

def spaces (count : Nat) : List Char := List.replicate count ' '

mutual

/-- What follows the key of an entry whose line is indented by `indent`. -/
def afterKey (indent : Nat) : Document → List Char
  | .null => " null\n".toList
  | .bool value => ' ' :: boolText value ++ ['\n']
  | .int value => ' ' :: intText value ++ ['\n']
  | .str text => ' ' :: scalarText (indent + 2) text.toList
  | .seq [] => " []\n".toList
  | .map [] => " \x7b\x7d\n".toList
  | .seq items => '\n' :: spaces indent ++ joined (spaces indent) (yamlItems indent items)
  | .map entries =>
    '\n' :: spaces (indent + 2) ++ joined (spaces (indent + 2)) (yamlEntries (indent + 2) entries)

/-- What follows the dash of an item whose line is indented by `indent`. -/
def afterDash (indent : Nat) : Document → List Char
  | .null => " null\n".toList
  | .bool value => ' ' :: boolText value ++ ['\n']
  | .int value => ' ' :: intText value ++ ['\n']
  | .str text => ' ' :: scalarText (indent + 2) text.toList
  | .seq [] => " []\n".toList
  | .map [] => " \x7b\x7d\n".toList
  | .seq items => ' ' :: joined (spaces (indent + 2)) (yamlItems (indent + 2) items)
  | .map entries => ' ' :: joined (spaces (indent + 2)) (yamlEntries (indent + 2) entries)

def yamlItems (indent : Nat) : List Document → List (List Char)
  | [] => []
  | item :: rest => ('-' :: afterDash indent item) :: yamlItems indent rest

def yamlEntries (indent : Nat) : List (String × Document) → List (List Char)
  | [] => []
  | (key, value) :: rest =>
    (key.toList ++ ':' :: afterKey indent value) :: yamlEntries indent rest

end

/-- A document as YAML. A mapping or sequence at the root is not indented. -/
def yaml : Document → String
  | .map (entry :: entries) => String.ofList (yamlEntries 0 (entry :: entries)).flatten
  | .seq (item :: items) => String.ofList (yamlItems 0 (item :: items)).flatten
  | leaf => String.ofList ((afterKey 0 leaf).drop 1)

end ApiScribe.Document
