import ApiScribe.Schema.Field

/-! Type expressions. An expression is built as a tree and written out once, so
that what stands inside an array is always bracketed as a whole. -/
namespace ApiScribe.TypeScript
open Text

/-- A type expression. -/
inductive TypeExpr where
  | name (text : String)
  | literal (value : ChoiceValue)
  | union (members : List TypeExpr)
  | array (item : TypeExpr)

/-- A character inside a string literal. Line ends of every kind are spelled
out, since a literal may not hold them. -/
def escapeChar (c : Char) : List Char :=
  if c = '\\' then ['\\', '\\']
  else if c = '\'' then ['\\', '\'']
  else if c = '\n' then ['\\', 'n']
  else if c = '\r' then ['\\', 'r']
  else if c = '\u2028' then "\\u2028".toList
  else if c = '\u2029' then "\\u2029".toList
  else [c]

/-- A choice value as a literal. -/
def literalText : ChoiceValue → List Char
  | .int number => (toString number).toList
  | .str text => '\'' :: text.toList.flatMap escapeChar ++ ['\'']

/-- What stands between the members of a union. -/
def unionMark : List Char := [' ', '|', ' ']

namespace TypeExpr

mutual

/-- The text of an expression. -/
def chars : TypeExpr → List Char
  | .name text => text.toList
  | .literal value => literalText value
  | .union members => joined unionMark (memberChars members)
  | .array item =>
    let inner := chars item
    if contains unionMark inner then '(' :: inner ++ [')', '[', ']'] else inner ++ ['[', ']']

def memberChars : List TypeExpr → List (List Char)
  | [] => []
  | member :: rest => chars member :: memberChars rest

end

def text (expr : TypeExpr) : String := String.ofList expr.chars

def any : TypeExpr := .name "any"

/-- An object with any properties. -/
def anyObject : TypeExpr := .name "Record<string, any>"

/-- An expression that also admits null. Any type admits it already. -/
def orNull (expr : TypeExpr) : TypeExpr :=
  if expr.text = "any" then expr else .union [expr, .name "null"]

end TypeExpr
end ApiScribe.TypeScript
