import ApiScribe.Text.Cut
import ApiScribe.TypeScript.Declaration

/-! The text of declarations and of the files that hold them. -/
namespace ApiScribe.TypeScript
open Text

/-- A line inside a comment may not end the comment. -/
def guardLine : List Char → List Char
  | '*' :: '/' :: rest => '*' :: '\\' :: '/' :: guardLine rest
  | c :: rest => c :: guardLine rest
  | [] => []

/-- A line of a comment. An empty one has no blank behind its star. -/
def commentLine (line : List Char) : String :=
  match guardLine (trimEnd line) with
  | [] => " *"
  | c :: rest => String.ofList (" * ".toList ++ c :: rest)

/-- The comment of a description, one line for each of its lines. -/
def docComment (description : Option String) : List String :=
  match trim ((description.getD "").toList) with
  | [] => []
  | c :: rest => "/**" :: (lines (c :: rest)).map commentLine ++ [" */"]

/-- The type parameters of a declaration. -/
def parameterText (parameters : List String) : String :=
  if parameters.isEmpty then "" else "<" ++ ", ".intercalate parameters ++ ">"

def propertyLine (property : Property) : String :=
  (if property.readOnly then "  readonly " else "  ") ++ property.name ++
    (if property.optional then "?: " else ": ") ++ property.expression ++ ";"

def memberLine (member : Property) : String :=
  "  " ++ member.name ++ " = " ++ member.expression ++ ","

namespace Declaration

/-- The lines of a declaration below its comment. -/
def bodyLines (declaration : Declaration) : List String :=
  let head := declaration.name ++ parameterText declaration.parameters
  match declaration.body with
  | .interface properties =>
    ("export interface " ++ head ++ " \x7b") :: properties.map propertyLine ++ ["\x7d"]
  | .enumeration members =>
    ("export enum " ++ declaration.name ++ " \x7b") :: members.map memberLine ++ ["\x7d"]
  | .synonym expression =>
    ["export type " ++ head ++ " = " ++ expression.getD "none" ++ ";"]

/-- The text of a declaration. -/
def text (declaration : Declaration) : String :=
  unlines (docComment declaration.description ++ declaration.bodyLines)

/-- The text of a declaration without the blanks at its end. -/
def block (declaration : Declaration) : String :=
  String.ofList (trimEnd declaration.text.toList)

end Declaration

def importLine (found : Import) : String :=
  "import type \x7b " ++ ", ".intercalate found.names ++ " \x7d from './" ++ found.module ++ "';"

/-- The text of a declaration file. -/
def fileText (title projectName version : String) (imports : List Import)
    (declarations : List Declaration) : String :=
  unlines ["/**", " * " ++ title, " * Generated for " ++ projectName ++ " " ++ version, " */"] ++
    (if imports.isEmpty then "" else unlines ("" :: imports.map importLine)) ++
    unlines (declarations.flatMap fun declaration => ["", declaration.block])

/-- What the index exports of a module: everything, or some of its names. -/
structure Export where
  module : String
  names : Option (List String)
  deriving DecidableEq, Repr

/-- The line of a module in the index. A module with nothing to export has none. -/
def Export.lines (found : Export) : List String :=
  let source := "'./" ++ found.module ++ "';"
  match found.names with
  | none => ["export * from " ++ source]
  | some [] => []
  | some names => ["export \x7b " ++ ", ".intercalate names ++ " \x7d from " ++ source]

/-- The text of the index. -/
def indexText (projectName version : String) (exports : List Export) : String :=
  unlines (["/**", " * " ++ projectName ++ " API types", " * Version " ++ version, " */", "",
    "export * from './" ++ commonModule ++ "';"] ++ exports.flatMap Export.lines)

end ApiScribe.TypeScript
