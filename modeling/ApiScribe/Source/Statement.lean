import ApiScribe.Source.Line

/-! Statements of a block. The least indentation of a block is the one that its
statements have; deeper lines belong to the statement before them. -/
namespace ApiScribe.Source

/-- A statement with the decorators above it and the lines indented below it. -/
structure Statement where
  decorators : List Line
  head : Line
  body : List Line
  deriving DecidableEq, Repr

def Line.isDecorator (line : Line) : Bool := line.text.head? == some '@'

/-- The statements of lines at one indentation, where `decorators` wait for the
next head. Deeper lines that follow no head are passed over. -/
def statementsAt (base : Nat) (decorators : List Line) : List Line → List Statement
  | [] => []
  | line :: rest =>
    if base < line.indent then statementsAt base decorators rest
    else if line.isDecorator then statementsAt base (decorators ++ [line]) rest
    else
      ⟨decorators, line, rest.takeWhile fun deeper => base < deeper.indent⟩ ::
        statementsAt base [] rest

/-- The least indentation of lines. -/
def baseIndent? (lines : List Line) : Option Nat := (lines.map Line.indent).min?

def statements (lines : List Line) : List Statement :=
  match baseIndent? lines with
  | none => []
  | some base => statementsAt base [] lines

end ApiScribe.Source
