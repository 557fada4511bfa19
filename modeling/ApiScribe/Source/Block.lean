import ApiScribe.Expr.Reader
import ApiScribe.Source.Docstring
import ApiScribe.Source.Statement

/-! The statements of a block by kind: classes, functions, assignments, imports
and everything else. A class body is a block again and is read only when it is
asked for. -/
namespace ApiScribe.Source
open Text ApiScribe.Expr

/-- A class definition. Named arguments in the brackets are no bases. -/
structure ClassDef where
  name : String
  bases : List String
  line : Nat
  docstring : Option String
  body : List Line

/-- A function definition. Decorators are kept without the sign before them. -/
structure FunctionDef where
  name : String
  decorators : List String
  line : Nat
  docstring : Option String
  body : List Line

/-- An assignment to a name, which `+=` makes an augmented one. -/
structure Assignment where
  target : String
  value : Value
  text : String
  augmented : Bool
  line : Nat

/-- The statements of a block by kind, each kind in source order. -/
structure Block where
  classes : List ClassDef
  functions : List FunctionDef
  assignments : List Assignment
  imports : List String
  expressions : List Line

/-- A statement whose kind is known. -/
inductive Kind where
  | classDef (found : ClassDef)
  | function (found : FunctionDef)
  | assignment (found : Assignment)
  | imported (text : String)
  | expression (line : Line)
  | unreadable

/-- Cuts the head of a compound statement from what stands on its line. -/
def cutHeader (text : List Char) : List Char × List Char :=
  match cutTopLevel? ':' text with
  | some (header, inline) => (trim header, trim inline)
  | none => (trim text, [])

/-- The lines of a statement's block, which may stand on the line of its head. -/
def Statement.block (statement : Statement) (inline : List Char) : List Line :=
  if inline.isEmpty then statement.body
  else [⟨statement.head.number, statement.head.indent + 4, inline⟩]

/-- The docstring of a block: its first statement, if that is a string. -/
def docstring? (body : List Line) : Option String :=
  match body with
  | [] => none
  | first :: _ => ((readString? first.text).bind cleanDocstring?).map String.ofList

def dropKeyword? (keyword text : List Char) : Option (List Char) :=
  match dropHead? keyword text with
  | some (c :: rest) => if isBlank c then some (trimStart rest) else none
  | _ => none

/-- The name that a header gives and what follows it. A name begins with a
letter of ASCII or an underscore. -/
def cutName? (text : List Char) : Option (String × List Char) :=
  match text with
  | [] => none
  | c :: rest =>
    if c.isAlpha || c == '_' then
      let tail := rest.takeWhile isWordChar
      some (String.ofList (c :: tail), trimStart (rest.drop tail.length))
    else none

/-- The text between round brackets that make up a whole text of one line. -/
def cutBrackets? (text : List Char) : Option (List Char) :=
  match text with
  | '(' :: rest =>
    if rest.getLast? = some ')' && !rest.contains '\n' then some rest.dropLast else none
  | _ => none

/-- The bases among the items in the brackets of a class header. -/
def readBases (inside : List Char) : List String :=
  ((splitTopLevel ',' inside).filter fun base => (cutTopLevel? '=' base).isNone).map String.ofList

/-- The name and the bases that a class header gives. -/
def readClassHeader? (header : List Char) : Option (String × List String) :=
  match (dropKeyword? "class".toList header).bind cutName? with
  | none => none
  | some (name, []) => some (name, [])
  | some (name, rest) => (cutBrackets? rest).map fun inside => (name, readBases inside)

def readClass? (statement : Statement) : Option ClassDef :=
  let (header, inline) := cutHeader statement.head.text
  (readClassHeader? header).map fun (name, bases) =>
    let body := statement.block inline
    ⟨name, bases, statement.head.number, docstring? body, body⟩

/-- The name that the head of a function gives. -/
def readFunctionName? (head : List Char) : Option String :=
  let plain := (dropKeyword? "async".toList head).getD head
  match (dropKeyword? "def".toList plain).bind cutName? with
  | some (name, '(' :: _) => some name
  | _ => none

def readFunction? (statement : Statement) : Option FunctionDef :=
  let (_, inline) := cutHeader statement.head.text
  (readFunctionName? statement.head.text).map fun name =>
    let body := statement.block inline
    let decorators := statement.decorators.map fun line =>
      String.ofList (trim (line.text.dropWhile (· == '@')))
    ⟨name, decorators, statement.head.number, docstring? body, body⟩

/-- Words that begin a statement which is no assignment. -/
def keywords : List String :=
  ["if", "elif", "else", "for", "while", "with", "try", "except", "finally", "return",
    "assert", "raise", "del", "pass", "yield", "lambda", "global", "nonlocal"]

/-- Characters before an equals sign that make it a comparison or an assignment
of another kind. -/
def isOperator (c : Char) : Bool :=
  c ∈ ['!', '<', '>', '=', '-', '*', '/', '%', '|', '&', '^']

/-- The target of an assignment from the text before its equals sign. A type
after a colon is left out. -/
def readTarget? (text : List Char) : Option String :=
  let target := trim text
  let bare := match cutTopLevel? ':' target with
    | some (name, _) => trim name
    | none => target
  if isDottedName bare then some (String.ofList bare) else none

def readAssignment? (line : Line) : Option Assignment :=
  let firstWord := line.text.takeWhile fun c => isAlphanumeric c || c == '_'
  if String.ofList firstWord ∈ keywords then none
  else match cutTopLevel? '=' line.text with
    | none => none
    | some (left, right) =>
      let last := left.getLast?
      if right.head? = some '=' || last.any isOperator then none
      else
        let augmented := last == some '+'
        (readTarget? (if augmented then left.dropLast else left)).map fun target =>
          ⟨target, read right, String.ofList (trim right), augmented, line.number⟩

/-- The kind of a statement. -/
def Statement.kind (statement : Statement) : Kind :=
  let text := statement.head.text
  let opens (word : String) : Bool := word.toList.isPrefixOf text
  if opens "class " then ((readClass? statement).map Kind.classDef).getD .unreadable
  else if opens "def " || opens "async " then
    ((readFunction? statement).map Kind.function).getD .unreadable
  else if opens "import " || opens "from " then .imported (String.ofList text)
  else ((readAssignment? statement.head).map Kind.assignment).getD (.expression statement.head)

namespace Block

/-- The statements of lines by kind. -/
def ofLines (lines : List Line) : Block :=
  let kinds := (statements lines).map Statement.kind
  { classes := kinds.filterMap fun | .classDef found => some found | _ => none
    functions := kinds.filterMap fun | .function found => some found | _ => none
    assignments := kinds.filterMap fun | .assignment found => some found | _ => none
    imports := kinds.filterMap fun | .imported text => some text | _ => none
    expressions := kinds.filterMap fun | .expression line => some line | _ => none }

/-- The value of the last plain assignment to a name. -/
def value? (block : Block) (name : String) : Option Value :=
  (block.assignments.reverse.find? fun found => found.target == name && !found.augmented).map (·.value)

/-- The names that plain assignments set, sorted, with their last values. -/
def constants (block : Block) : List (String × Value) :=
  let targets := (block.assignments.filter fun found => !found.augmented).map (·.target)
  let sorted := targets.eraseDups.mergeSort fun left right => left ≤ right
  sorted.filterMap fun target => (block.value? target).map fun value => (target, value)

def function? (block : Block) (name : String) : Option FunctionDef :=
  block.functions.find? fun found => found.name == name

end Block

namespace ClassDef

def block (found : ClassDef) : Block := .ofLines found.body

/-- The first class of a name directly inside a class. -/
def inner? (found : ClassDef) (name : String) : Option ClassDef :=
  found.block.classes.find? fun nested => nested.name == name

end ClassDef
end ApiScribe.Source
