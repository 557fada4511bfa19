import ApiScribe.Text.Letter

/-! Digits of numbers in a base up to sixteen. -/
namespace ApiScribe.Text

/-- The digit that a character is in a base. -/
def digitIn? (base : Nat) (c : Char) : Option Nat :=
  let digit :=
    if isDigit c then c.toNat - '0'.toNat
    else if 'a' ≤ c && c ≤ 'f' then c.toNat - 'a'.toNat + 10
    else if 'A' ≤ c && c ≤ 'F' then c.toNat - 'A'.toNat + 10
    else base
  if digit < base then some digit else none

/-- The number that a nonempty run of digits in a base stands for. -/
def readIn? (base : Nat) (digits : List Char) : Option Nat :=
  if digits.isEmpty then none
  else digits.foldlM (fun number c => (digitIn? base c).map (number * base + ·)) 0

/-- A number in a base, in at least `width` digits. -/
def digitsOf (base width number : Nat) : List Char :=
  let digits := Nat.toDigits base number
  List.replicate (width - digits.length) '0' ++ digits

end ApiScribe.Text
