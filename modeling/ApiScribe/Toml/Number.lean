import ApiScribe.Expr.Number
import ApiScribe.Text.Cut
import ApiScribe.Text.Digits
import ApiScribe.Toml.Basic

/-! Numbers, dates and times of TOML. An underscore stands between two digits,
and a decimal number has no needless zero. -/
namespace ApiScribe.Toml
open Text

/-- Digits in a base without the underscores between them. -/
def readGroups? (base : Nat) (text : List Char) : Option (List Char) :=
  let groups := splitAt (· == '_') text
  if groups.all fun group => !group.isEmpty && group.all fun c => (digitIn? base c).isSome then
    some groups.flatten
  else none

/-- The digits of a decimal integer without its sign. -/
def readWhole? (text : List Char) : Option (List Char) :=
  (readGroups? 10 text).filter fun digits => digits.head? != some '0' || digits.length == 1

/-- An integer of 64 bits. -/
def readInteger? (text : List Char) : Option Int :=
  match text with
  | '0' :: 'x' :: rest => unsigned 16 rest
  | '0' :: 'o' :: rest => unsigned 8 rest
  | '0' :: 'b' :: rest => unsigned 2 rest
  | _ => (readWhole? (Expr.cutSign text).2).bind fun digits =>
    (readIn? 10 digits).bind fun magnitude =>
      let number : Int := if (Expr.cutSign text).1 then -magnitude else magnitude
      if -Int.pow 2 63 ≤ number ∧ number < Int.pow 2 63 then some number else none
where
  /-- An integer behind the mark of its base. -/
  unsigned (base : Nat) (text : List Char) : Option Int :=
    ((readGroups? base text).bind (readIn? base)).bind fun number =>
      if number < Nat.pow 2 63 then some (number : Int) else none

/-- Whether a text is a fraction part or nothing at all. -/
def isFractionPart : List Char → Bool
  | [] => true
  | '.' :: digits => (readGroups? 10 digits).isSome
  | _ => false

/-- Whether a text is an exponent or nothing at all. -/
def isExponentPart : List Char → Bool
  | [] => true
  | c :: rest => (c == 'e' || c == 'E') && (readGroups? 10 (Expr.cutSign rest).2).isSome

/-- Whether a text is a number with a fraction or an exponent, or one of the
doubles that have no digits. A number may not be too great for a double. -/
def isFraction (text : List Char) : Bool :=
  let (_, body) := Expr.cutSign text
  let mantissa := body.takeWhile fun c => c != 'e' && c != 'E'
  let whole := mantissa.takeWhile (· ≠ '.')
  let fraction := mantissa.drop whole.length
  let exponent := body.drop mantissa.length
  let written := (readWhole? whole).isSome && isFractionPart fraction &&
    isExponentPart exponent && !(fraction.isEmpty && exponent.isEmpty)
  body == "inf".toList || body == "nan".toList ||
    (written && Expr.readDouble? (text.filter (· ≠ '_')) != some ⟨false, .infinite⟩)

/-- A number of exactly `width` digits within bounds, and the text behind it. -/
def readFixed? (width low high : Nat) (text : List Char) : Option (Nat × List Char) :=
  if text.length < width then none
  else
    match (readIn? 10 (text.take width)).filter fun number => low ≤ number && number ≤ high with
    | some number => some (number, text.drop width)
    | none => none

/-- The text after a fixed character. -/
def expect? (c : Char) : List Char → Option (List Char)
  | [] => none
  | first :: rest => if first = c then some rest else none

/-- The days of a month. -/
def daysIn (year month : Nat) : Nat :=
  if month = 2 then
    if year % 4 = 0 ∧ (year % 100 ≠ 0 ∨ year % 400 = 0) then 29 else 28
  else if month = 4 ∨ month = 6 ∨ month = 9 ∨ month = 11 then 30
  else 31

/-- The text after a date. -/
def dateRest? (text : List Char) : Option (List Char) := do
  let (year, text) ← readFixed? 4 0 9999 text
  let text ← expect? '-' text
  let (month, text) ← readFixed? 2 1 12 text
  let text ← expect? '-' text
  let (_, text) ← readFixed? 2 1 (daysIn year month) text
  some text

/-- The text after the decimals of a second, which may be left out. -/
def decimalsRest (text : List Char) : List Char :=
  match text with
  | '.' :: rest => if rest.head?.any isDigit then rest.dropWhile isDigit else text
  | _ => text

/-- The text after a time of day. A minute may have a leap second. -/
def timeRest? (text : List Char) : Option (List Char) := do
  let (_, text) ← readFixed? 2 0 23 text
  let text ← expect? ':' text
  let (_, text) ← readFixed? 2 0 59 text
  let text ← expect? ':' text
  let (_, text) ← readFixed? 2 0 60 text
  some (decimalsRest text)

/-- The text after the offset of a time zone. -/
def offsetRest? : List Char → Option (List Char)
  | [] => none
  | c :: text =>
    if c = 'Z' ∨ c = 'z' then some text
    else if c = '+' ∨ c = '-' then do
      let (_, text) ← readFixed? 2 0 23 text
      let text ← expect? ':' text
      let (_, text) ← readFixed? 2 0 59 text
      some text
    else none

/-- The text after a date with the time behind it, if there is one. -/
def dateTimeRest? (text : List Char) : Option (List Char) :=
  (dateRest? text).map fun rest =>
    match rest with
    | [] => []
    | c :: more =>
      if c = 'T' ∨ c = 't' ∨ c = ' ' then
        match timeRest? more with
        | some after => (offsetRest? after).getD after
        | none => rest
      else rest

/-- The text after a date, a time or both. -/
def momentRest? (text : List Char) : Option (List Char) :=
  (dateTimeRest? text).or (timeRest? text)

/-- Characters of numbers and words. -/
def isTokenChar (c : Char) : Bool :=
  c.isAlphanum || c == '_' || c == '+' || c == '-' || c == '.'

/-- The value of a number or word. -/
def ofToken? (token : List Char) : Option Toml :=
  if token = "true".toList then some (.bool true)
  else if token = "false".toList then some (.bool false)
  else match readInteger? token with
    | some number => some (.int number)
    | none => if isFraction token then some .fraction else none

/-- A value that is neither a string nor has parts. -/
def readPlain? (text : List Char) : Option (Toml × List Char) :=
  match momentRest? text with
  | some rest => some (.moment, rest)
  | none =>
    let token := text.takeWhile isTokenChar
    (ofToken? token).map fun value => (value, text.drop token.length)

end ApiScribe.Toml
