import ApiScribe.Expr.Basic
import ApiScribe.Text.Cut

/-! Writing a value as source text. Strings take single quotes, items are
separated by a comma and a blank, and a tuple of one item keeps the comma that
makes it a tuple. -/
namespace ApiScribe.Value
open Text

/-- The characters of a string between single quotes. -/
def escape (text : List Char) : List Char :=
  text.flatMap fun c => if c = '\\' ∨ c = '\'' then ['\\', c] else [c]

def quoted (text : List Char) : List Char := '\'' :: escape text ++ ['\'']

def separator : List Char := [',', ' ']

mutual

/-- The text of a value. -/
def print : Value → List Char
  | .str text => quoted text.toList
  | .int number => (toString number).toList
  | .float number => number.text
  | .bool true => "True".toList
  | .bool false => "False".toList
  | .none => "None".toList
  | .list items => '[' :: joined separator (printItems items) ++ [']']
  | .tuple [only] => '(' :: print only ++ [',', ')']
  | .tuple items => '(' :: joined separator (printItems items) ++ [')']
  | .dict entries => '\x7b' :: joined separator (printEntries entries) ++ ['\x7d']
  | .name dotted => dotted.toList
  | .call callee args named =>
    callee.toList ++ '(' :: joined separator (printItems args ++ printNamed named) ++ [')']
  | .raw text => text.toList

def printItems : List Value → List (List Char)
  | [] => []
  | item :: rest => print item :: printItems rest

def printEntries : List (Value × Value) → List (List Char)
  | [] => []
  | (key, value) :: rest => (print key ++ ':' :: ' ' :: print value) :: printEntries rest

def printNamed : List (String × Value) → List (List Char)
  | [] => []
  | (key, value) :: rest => (key.toList ++ '=' :: print value) :: printNamed rest

end

/-- The text of a value as a string. -/
def display (value : Value) : String := String.ofList value.print

end ApiScribe.Value
