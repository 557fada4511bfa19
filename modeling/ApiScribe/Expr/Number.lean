import ApiScribe.Expr.Basic

/-! Numeric literals. Underscores between digits are dropped; a number in the
range of 64 bits is an integer, and every other one is a double. -/
namespace ApiScribe.Expr
open Text

/-- The number that a nonempty run of digits stands for. -/
def readDigits? (digits : List Char) : Option Nat :=
  if digits.isEmpty || !digits.all isDigit then none
  else some (digits.foldl (fun number c => number * 10 + (c.toNat - '0'.toNat)) 0)

/-- A sign before a number. -/
def cutSign : List Char → Bool × List Char
  | '-' :: rest => (true, rest)
  | '+' :: rest => (false, rest)
  | text => (false, text)

/-- An integer of 64 bits. -/
def readInt? (text : List Char) : Option Int :=
  let (negative, digits) := cutSign text
  match readDigits? digits with
  | none => none
  | some magnitude =>
    let number : Int := if negative then -magnitude else magnitude
    if -Int.pow 2 63 ≤ number ∧ number < Int.pow 2 63 then some number else none

/-- The exponent of a number, which may be left out as a whole. -/
def readExponent? : List Char → Option Int
  | [] => some 0
  | c :: rest =>
    if c = 'e' ∨ c = 'E' then
      let (negative, digits) := cutSign rest
      (readDigits? digits).map fun magnitude => if negative then -(magnitude : Int) else magnitude
    else none

/-- A number with a fraction or an exponent. One side of the point may be empty,
not both. -/
def readDouble? (text : List Char) : Option Double :=
  let (negative, body) := cutSign text
  let whole := body.takeWhile isDigit
  let afterWhole := body.drop whole.length
  let (fraction, tail) := match afterWhole with
    | '.' :: rest => (rest.takeWhile isDigit, rest.dropWhile isDigit)
    | other => ([], other)
  match readDigits? (whole ++ fraction), readExponent? tail with
  | some digits, some exponent =>
    some ⟨negative, Double.ofDecimal digits (exponent - fraction.length)⟩
  | _, _ => none

/-- The value of a numeric literal. -/
def readNumber? (text : List Char) : Option Value :=
  match text with
  | [] => none
  | first :: _ =>
    if isDigit first || first == '-' || first == '.' then
      let digits := text.filter (· ≠ '_')
      match readInt? digits with
      | some number => some (.int number)
      | none => (readDouble? digits).map .float
    else none

end ApiScribe.Expr
