import ApiScribe.Naming
import ApiScribe.TypeScript.Declaration

/-! Enumerations of choices. Each choice becomes a member whose symbol comes
from its value; a value without letters and digits takes its symbol from the
label. Symbols that would meet are told apart by a number. -/
namespace ApiScribe.TypeScript

/-- The symbol that a choice asks for. -/
def choiceSymbol (choice : Choice) : String :=
  let symbol := Naming.constant choice.value.text.toList
  if symbol = "VALUE".toList && !choice.label.isEmpty then
    String.ofList (Naming.constant choice.label.toList)
  else String.ofList symbol

/-- The spellings of a symbol in the order in which they are tried. -/
def spelling (symbol : String) : Nat → String
  | 0 => symbol
  | number + 1 => symbol ++ "_" ++ toString (number + 2)

/-- The first spelling that is not in use. One more spelling than there are
names in use is enough to find it. -/
def freeSpelling (used : List String) (symbol : String) : String :=
  (((List.range (used.length + 1)).map (spelling symbol)).find? fun name =>
    !used.contains name).getD symbol

/-- The members for choices, where the symbols in `used` are taken. -/
def members (used : List String) : List Choice → List Property
  | [] => []
  | choice :: rest =>
    let symbol := freeSpelling used (choiceSymbol choice)
    { name := symbol, expression := String.ofList (literalText choice.value) } ::
      members (symbol :: used) rest

/-- The enumeration of the choices of a field. -/
def enumerationOf (className : String) (field : Field) : Declaration :=
  { name := className ++ String.ofList (Naming.pascal field.name.toList) ++ "Choices"
    body := .enumeration (members [] field.choices)
    description := some ("Choices for " ++ className ++ "." ++ field.name) }

/-- One enumeration for each field with choices. -/
def enumerations (className : String) (fields : List Field) : List Declaration :=
  (fields.filter fun field => !field.choices.isEmpty).map (enumerationOf className)

end ApiScribe.TypeScript
