import ApiScribe.Text.Cut
import ApiScribe.Text.Letter

/-! Doubles as exact numbers. A decimal literal is rounded to the nearest
number `significand * 2 ^ exponent` of the binary64 format, ties to the even
significand, and written back with the fewest digits that round to it again.
Everything is natural number arithmetic, so no step depends on the machine. -/
namespace ApiScribe

/-- A magnitude of the binary64 format. -/
inductive Magnitude where
  | finite (significand : Nat) (exponent : Int)
  | infinite
  deriving DecidableEq, Repr

/-- A double that is a number. Zero keeps its sign. -/
structure Double where
  negative : Bool
  magnitude : Magnitude
  deriving DecidableEq, Repr

namespace Double

/-- The quotient rounded to the nearest natural number, a half to the even one. -/
def roundHalfEven (numerator denominator : Nat) : Nat :=
  let quotient := numerator / denominator
  let twice := 2 * (numerator % denominator)
  if twice < denominator then quotient
  else if denominator < twice then quotient + 1
  else quotient + quotient % 2

/-- Numerator and denominator of `base ^ exponent * factor`. -/
def scaled (base : Nat) (exponent : Int) (factor : Nat) : Nat × Nat :=
  if 0 ≤ exponent then (factor * base.pow exponent.toNat, 1)
  else (factor, base.pow (-exponent).toNat)

/-- The exponent of the greatest power of two that is at most a positive quotient. -/
def binaryExponent (numerator denominator : Nat) : Int :=
  let guess : Int := (numerator.log2 : Int) - (denominator.log2 : Int)
  let (top, bottom) := scaled 2 guess denominator
  if top ≤ numerator * bottom then guess else guess - 1

/-- The magnitude nearest to a quotient. -/
def ofQuotient (numerator denominator : Nat) : Magnitude :=
  if numerator = 0 then .finite 0 (-1074)
  else
    let exponent := max (binaryExponent numerator denominator - 52) (-1074)
    let (top, bottom) := scaled 2 exponent denominator
    let significand := roundHalfEven (numerator * bottom) top
    let (significand, exponent) :=
      if significand = Nat.pow 2 53 then (Nat.pow 2 52, exponent + 1) else (significand, exponent)
    if 971 < exponent then .infinite else .finite significand exponent

/-- The magnitude nearest to `digits * 10 ^ exponent`. A number beyond the
format on either side is settled by its length, without a huge power. -/
def ofDecimal (digits : Nat) (exponent : Int) : Magnitude :=
  let point : Int := (Nat.toDigits 10 digits).length + exponent
  if digits = 0 ∨ point ≤ -324 then .finite 0 (-1074)
  else if 310 ≤ point then .infinite
  else
    let (numerator, denominator) := scaled 10 exponent digits
    ofQuotient numerator denominator

/-- The place `p` with `10 ^ (p - 1) ≤ numerator / denominator < 10 ^ p`. -/
def decimalPoint (numerator denominator : Nat) : Int :=
  if denominator ≤ numerator then (Nat.toDigits 10 (numerator / denominator)).length
  else
    let length := (Nat.toDigits 10 (denominator / numerator)).length
    if numerator * Nat.pow 10 (length - 1) = denominator then 2 - (length : Int)
    else 1 - (length : Int)

/-- The numbers that round to a finite magnitude, in units of a quarter of its
last place: the two ends and whether they belong. -/
def roundingInterval (significand : Nat) (exponent : Int) : Nat × Nat × Bool :=
  let low := if significand = Nat.pow 2 52 ∧ -1074 < exponent then 4 * significand - 1
    else 4 * significand - 2
  (low, 4 * significand + 2, significand % 2 = 0)

/-- The multiple of `10 ^ (point - count)` nearest to a magnitude among those
that round to it, as a number of such units. -/
def shortestAt? (significand : Nat) (exponent point : Int) (count : Nat) : Option Nat :=
  let (low, high, closed) := roundingInterval significand exponent
  let (unit, unitBottom) := scaled 10 (point - count) 1
  let (quarter, quarterBottom) := scaled 2 (exponent - 2) 1
  -- One unit is `unit * quarterBottom` and one quarter `quarter * unitBottom` of a common measure.
  let unit := unit * quarterBottom
  let quarter := quarter * unitBottom
  let value := 4 * significand * quarter
  let inside (candidate : Nat) : Bool :=
    let place := candidate * unit
    if closed then low * quarter ≤ place && place ≤ high * quarter
    else low * quarter < place && place < high * quarter
  let down := value / unit
  let up := down + 1
  match inside down, inside up with
  | false, false => none
  | true, false => some down
  | false, true => some up
  | true, true => if value - down * unit < up * unit - value then some down else some up

/-- The fewest digits that read back as a magnitude; seventeen always do. -/
def shortest (significand : Nat) (exponent point : Int) : List Char × Int :=
  let found := (List.range 17).findSome? fun count =>
    (shortestAt? significand exponent point (count + 1)).map fun digits => (digits, count + 1)
  let (digits, count) := found.getD (0, 1)
  let written := Nat.toDigits 10 digits
  (Text.dropTrailing '0' written, point + written.length - count)

/-- Digits with the decimal point before place `point`. Numbers from `10 ^ 16`
and below `10 ^ -4` take an exponent; the others keep at least one decimal. -/
def layout (digits : List Char) (point : Int) : List Char :=
  if 17 ≤ point ∨ point ≤ -4 then
    let fraction := digits.drop 1
    digits.take 1 ++ (if fraction.isEmpty then [] else '.' :: fraction) ++
      'e' :: (toString (point - 1)).toList
  else if point ≤ 0 then
    "0.".toList ++ List.replicate (-point).toNat '0' ++ digits
  else if digits.length ≤ point.toNat then
    digits ++ List.replicate (point.toNat - digits.length) '0' ++ ".0".toList
  else digits.take point.toNat ++ '.' :: digits.drop point.toNat

/-- The text of a double. -/
def text (x : Double) : List Char :=
  let body := match x.magnitude with
    | .infinite => "inf".toList
    | .finite 0 _ => "0.0".toList
    | .finite significand exponent =>
      let (numerator, denominator) := scaled 2 exponent significand
      let (digits, point) := shortest significand exponent (decimalPoint numerator denominator)
      layout digits point
  if x.negative then '-' :: body else body

end Double
end ApiScribe
