import ApiScribe.Text.Cut

/-! Documents: trees of named and listed values, the common ground of the data
formats that a report can be written in. -/
namespace ApiScribe

/-- A tree of values. The entries of a mapping keep their order. -/
inductive Document where
  | null
  | bool (value : Bool)
  | int (value : Int)
  | str (text : String)
  | seq (items : List Document)
  | map (entries : List (String × Document))

namespace Document

/-- A value that may be absent. -/
def optional {α : Type} (write : α → Document) : Option α → Document
  | none => .null
  | some value => write value

def strings (texts : List String) : Document := .seq (texts.map .str)

/-- The text of a value that has no parts. -/
def boolText (value : Bool) : List Char := if value then "true".toList else "false".toList

def intText (value : Int) : List Char := (toString value).toList

end Document
end ApiScribe
