import ApiScribe.Double
import Mathlib.Algebra.Order.Field.Basic
import Mathlib.Algebra.Order.Field.Power
import Mathlib.Algebra.Order.Ring.Rat
import Mathlib.Tactic.Linarith
import Mathlib.Tactic.NormNum
import Mathlib.Tactic.Ring

/-! Integers as doubles. A double is nearest to an integer if none of the whole format is
nearer, so that it is the integer itself wherever a double is. What is beyond the format
counts as the power of two behind its greatest number, which makes overflow a case of
rounding like any other. -/
namespace ApiScribe

namespace Magnitude

/-- The magnitudes of the binary64 format. -/
def Valid : Magnitude → Prop
  | .finite significand exponent => significand < 2 ^ 53 ∧ -1074 ≤ exponent ∧ exponent ≤ 971
  | .infinite => True

/-- Where a magnitude stands among the numbers. -/
def place : Magnitude → ℚ
  | .finite significand exponent => significand * 2 ^ exponent
  | .infinite => 2 ^ 1024

/-- A magnitude of the format that no other is nearer to a number than. -/
structure Nearest (magnitude : Magnitude) (number : Nat) : Prop where
  valid : magnitude.Valid
  least : ∀ other : Magnitude, other.Valid →
    |magnitude.place - number| ≤ |other.place - number|

end Magnitude

namespace Double
open Magnitude

variable {number significand factor numerator denominator : Nat} {exponent other : Int}
  {magnitude : Magnitude} {x : Double} {integer : Int}

/-! The integer rounding that the others rest on. -/

/-- A quotient is rounded by half a unit at most. -/
private theorem roundHalfEven_error (numerator : Nat) (positive : 0 < denominator) :
    2 * numerator ≤ 2 * (roundHalfEven numerator denominator * denominator) + denominator ∧
      2 * (roundHalfEven numerator denominator * denominator) ≤ 2 * numerator + denominator := by
  have whole := Nat.div_add_mod' numerator denominator
  have small := Nat.mod_lt numerator positive
  simp only [roundHalfEven]
  split
  · omega
  · split
    · rw [Nat.add_mul]
      omega
    · rcases Nat.mod_two_eq_zero_or_one (numerator / denominator) with even | odd
      · rw [even, Nat.add_zero]
        omega
      · rw [odd, Nat.add_mul]
        omega

private theorem roundHalfEven_le (positive : 0 < denominator)
    (bound : numerator ≤ factor * denominator) : roundHalfEven numerator denominator ≤ factor := by
  obtain ⟨-, above⟩ := roundHalfEven_error numerator positive
  by_contra more
  have next : (factor + 1) * denominator ≤ roundHalfEven numerator denominator * denominator :=
    Nat.mul_le_mul_right _ (by omega)
  rw [Nat.add_mul, Nat.one_mul] at next
  omega

/-- No multiple of the unit is nearer than the one rounded to. -/
theorem roundHalfEven_nearest (numerator : Nat) (positive : 0 < denominator) (factor : Nat) :
    |(roundHalfEven numerator denominator * denominator : ℚ) - numerator| ≤
      |(factor * denominator : ℚ) - numerator| := by
  obtain ⟨below, above⟩ := roundHalfEven_error numerator positive
  generalize roundHalfEven numerator denominator = rounded at below above ⊢
  have unit : (0 : ℚ) < denominator := by exact_mod_cast positive
  have below : (2 * numerator : ℚ) ≤ 2 * (rounded * denominator) + denominator := by
    exact_mod_cast below
  have above : (2 * (rounded * denominator) : ℚ) ≤ 2 * numerator + denominator := by
    exact_mod_cast above
  rcases lt_trichotomy factor rounded with less | rfl | more
  · have step : ((factor : ℚ) + 1) * denominator ≤ rounded * denominator :=
      mul_le_mul_of_nonneg_right (by exact_mod_cast less) unit.le
    rw [abs_le, ← neg_sub (numerator : ℚ), abs_neg]
    constructor <;> linarith [le_abs_self ((numerator : ℚ) - factor * denominator)]
  · exact le_rfl
  · have step : ((rounded : ℚ) + 1) * denominator ≤ factor * denominator :=
      mul_le_mul_of_nonneg_right (by exact_mod_cast more) unit.le
    rw [abs_le]
    constructor <;> linarith [le_abs_self ((factor * denominator : ℚ) - numerator)]

/-! Units of the last place. -/

private theorem scaled_bottom_pos (exponent : Int) : 0 < (scaled 2 exponent 1).2 := by
  rw [scaled]
  split
  · exact Nat.one_pos
  · exact Nat.pow_pos Nat.two_pos

private theorem scaled_top (exponent : Int) :
    ((scaled 2 exponent 1).1 : ℚ) = 2 ^ exponent * (scaled 2 exponent 1).2 := by
  rw [scaled]
  split
  · next whole =>
    obtain ⟨power, rfl⟩ := Int.eq_ofNat_of_zero_le whole
    simp
  · next fraction =>
    obtain ⟨power, same⟩ := Int.eq_ofNat_of_zero_le (show 0 ≤ -exponent by omega)
    obtain rfl : exponent = -(power : Int) := by omega
    simp

/-- The multiple of a power of two that a number is rounded to. -/
def multiple (number : Nat) (exponent : Int) : Nat :=
  roundHalfEven (number * (scaled 2 exponent 1).2) (scaled 2 exponent 1).1

private theorem scaled_top_pos (exponent : Int) : 0 < (scaled 2 exponent 1).1 := by
  have bottom : (0 : ℚ) < (scaled 2 exponent 1).2 := by exact_mod_cast scaled_bottom_pos exponent
  have top := scaled_top exponent
  have positive : (0 : ℚ) < (scaled 2 exponent 1).1 := top ▸ mul_pos (by positivity) bottom
  exact_mod_cast positive

private theorem multiple_nearest (number : Nat) (exponent : Int) (factor : Nat) :
    |multiple number exponent * 2 ^ exponent - (number : ℚ)| ≤
      |factor * 2 ^ exponent - (number : ℚ)| := by
  have bottom : (0 : ℚ) < (scaled 2 exponent 1).2 := by exact_mod_cast scaled_bottom_pos exponent
  have nearest := roundHalfEven_nearest (number * (scaled 2 exponent 1).2)
    (scaled_top_pos exponent) factor
  have apart (k : ℚ) : k * (scaled 2 exponent 1).1 - (number * (scaled 2 exponent 1).2 : Nat) =
      (k * 2 ^ exponent - number) * (scaled 2 exponent 1).2 := by
    rw [scaled_top]
    push_cast
    ring
  rw [apart, apart, abs_mul, abs_mul] at nearest
  exact le_of_mul_le_mul_right nearest (abs_pos.mpr bottom.ne')

private theorem multiple_le (bound : (number : ℚ) ≤ factor * 2 ^ exponent) :
    multiple number exponent ≤ factor := by
  refine roundHalfEven_le (scaled_top_pos exponent) ?_
  have bottom : (0 : ℚ) ≤ (scaled 2 exponent 1).2 := Nat.cast_nonneg _
  have scaledBound := mul_le_mul_of_nonneg_right bound bottom
  rw [mul_assoc, ← scaled_top] at scaledBound
  exact_mod_cast scaledBound

/-! Magnitudes nearest to natural numbers. -/

private theorem two_zpow_split (below : exponent ≤ other) :
    (2 : ℚ) ^ other = (2 ^ (other - exponent).toNat : Nat) * 2 ^ exponent := by
  obtain ⟨power, apart⟩ := Int.eq_ofNat_of_zero_le (Int.sub_nonneg.mpr below)
  obtain rfl : other = power + exponent := by omega
  rw [zpow_add₀ two_ne_zero, add_sub_cancel_right, Int.toNat_natCast, zpow_natCast]
  push_cast
  rfl

private theorem finer_le (finer : other < exponent) :
    (2 : ℚ) ^ 53 * 2 ^ other ≤ 2 ^ 52 * 2 ^ exponent :=
  calc (2 : ℚ) ^ 53 * 2 ^ other
      ≤ 2 ^ 53 * 2 ^ (exponent - 1) :=
        mul_le_mul_of_nonneg_left (zpow_le_zpow_right₀ one_le_two (by omega)) (by positivity)
    _ = 2 ^ 52 * 2 ^ exponent := by
        rw [zpow_sub_one₀ two_ne_zero]
        ring

private theorem ends : (2 : ℚ) ^ 53 * 2 ^ (971 : Int) = 2 ^ 1024 := by
  rw [← zpow_natCast, ← zpow_natCast, ← zpow_add₀ two_ne_zero]
  rfl

/-- A magnitude is less than 53 binary digits in units of its last place. -/
private theorem place_finite_lt (small : significand < 2 ^ 53) :
    (Magnitude.finite significand exponent).place < 2 ^ 53 * 2 ^ exponent :=
  mul_lt_mul_of_pos_right (by exact_mod_cast small) (by positivity)

/-- Of the format, too, nothing is nearer to a number than the multiple of its last place:
what has a finer last place is below all numbers with this one. -/
theorem multiple_least (bound : 2 ^ 52 * 2 ^ exponent ≤ (number : ℚ)) (inside : exponent ≤ 971)
    (valid : magnitude.Valid) :
    |multiple number exponent * 2 ^ exponent - (number : ℚ)| ≤ |magnitude.place - number| := by
  cases magnitude with
  | infinite =>
    have whole := two_zpow_split (show exponent ≤ 1024 by omega)
    rw [place, show (2 : ℚ) ^ 1024 = 2 ^ (1024 : Int) from rfl, whole]
    exact multiple_nearest number exponent _
  | finite significand finer =>
    by_cases coarse : exponent ≤ finer
    · rw [place, two_zpow_split coarse, ← mul_assoc, ← Nat.cast_mul]
      exact multiple_nearest number exponent _
    · have below := (place_finite_lt valid.1).le.trans (finer_le (Int.not_le.mp coarse))
      refine (multiple_nearest number exponent (2 ^ 52)).trans ?_
      rw [Nat.cast_pow, Nat.cast_two, abs_sub_comm, abs_of_nonneg (sub_nonneg.mpr bound),
        abs_sub_comm, abs_of_nonneg (sub_nonneg.mpr (below.trans bound))]
      exact sub_le_sub_left below _

/-- No number of the format reaches the power of two that ends it. -/
private theorem place_lt (valid : (Magnitude.finite significand exponent).Valid) :
    (Magnitude.finite significand exponent).place < 2 ^ 1024 := by
  refine (place_finite_lt valid.1).trans_le (le_of_le_of_eq ?_ ends)
  exact mul_le_mul_of_nonneg_left (zpow_le_zpow_right₀ one_le_two valid.2.2) (by positivity)

private theorem place_le (valid : magnitude.Valid) : magnitude.place ≤ 2 ^ 1024 := by
  cases magnitude with
  | infinite => exact le_rfl
  | finite significand exponent => exact (place_lt valid).le

private theorem infinite_nearest (beyond : 2 ^ 1024 ≤ (number : ℚ)) :
    Magnitude.infinite.Nearest number := by
  refine ⟨trivial, fun other valid => ?_⟩
  have inside := place_le valid
  rw [place, abs_sub_comm, abs_of_nonneg (sub_nonneg.mpr beyond), abs_sub_comm,
    abs_of_nonneg (sub_nonneg.mpr (inside.trans beyond))]
  exact sub_le_sub_left inside _

private theorem ofQuotient_one (some : number ≠ 0) (last : exponent = (number.log2 : Int) - 52) :
    ofQuotient number 1 =
      if multiple number exponent = 2 ^ 53 then
        if 971 < exponent + 1 then .infinite else .finite (2 ^ 52) (exponent + 1)
      else if 971 < exponent then .infinite
      else .finite (multiple number exponent) exponent := by
  have highest : binaryExponent number 1 = number.log2 := by
    simp [binaryExponent, scaled, Nat.log2_self_le some, show Nat.log2 1 = 0 from rfl]
  have normal : max (binaryExponent number 1 - 52) (-1074) = exponent := by
    rw [highest, ← last]
    exact max_eq_left (by omega)
  have rounded : roundHalfEven (number * (scaled 2 exponent 1).2) (scaled 2 exponent 1).1 =
      multiple number exponent := rfl
  unfold ofQuotient
  simp only [if_neg some, normal, rounded, Nat.pow_eq]
  by_cases carried : multiple number exponent = 2 ^ 53
  · rw [if_pos carried, if_pos carried]
  · rw [if_neg carried, if_neg carried]

/-- A positive number has 53 binary digits in units of its last place. -/
private theorem lastPlace_bounds (some : number ≠ 0) (last : exponent = (number.log2 : Int) - 52) :
    2 ^ 52 * 2 ^ exponent ≤ (number : ℚ) ∧ (number : ℚ) < 2 ^ 53 * 2 ^ exponent := by
  have power (count : Nat) : (2 : ℚ) ^ count * 2 ^ exponent = 2 ^ (count + exponent) := by
    rw [zpow_add₀ two_ne_zero, zpow_natCast]
  constructor
  · rw [power, show ((52 : Nat) : Int) + exponent = number.log2 by omega, zpow_natCast]
    exact_mod_cast Nat.log2_self_le some
  · rw [power, show ((53 : Nat) : Int) + exponent = (number.log2 + 1 : Nat) by omega, zpow_natCast]
    exact_mod_cast Nat.lt_log2_self

private theorem ofQuotient_nearest (some : number ≠ 0) : (ofQuotient number 1).Nearest number := by
  generalize last : (number.log2 : Int) - 52 = exponent
  obtain ⟨lower, upper⟩ := lastPlace_bounds some last.symm
  have least {other : Magnitude} (inside : exponent ≤ 971) (valid : other.Valid) :=
    multiple_least lower inside valid
  have bounded : multiple number exponent ≤ 2 ^ 53 := multiple_le (by exact_mod_cast upper.le)
  rw [ofQuotient_one some last.symm]
  by_cases inside : exponent ≤ 971
  · split
    · next carried =>
      -- A carry moves the last place, not the number.
      have same : multiple number exponent * (2 : ℚ) ^ exponent = 2 ^ 53 * 2 ^ exponent := by
        rw [carried]
        push_cast
        rfl
      split
      · obtain rfl : exponent = 971 := by omega
        refine ⟨trivial, fun other valid => ?_⟩
        rw [place, ← ends, ← same]
        exact least inside valid
      · have moved : (Magnitude.finite (2 ^ 52) (exponent + 1)).place =
            multiple number exponent * 2 ^ exponent := by
          rw [same, place, zpow_add_one₀ two_ne_zero]
          push_cast
          ring
        refine ⟨⟨by norm_num, by omega, by omega⟩, fun other valid => ?_⟩
        rw [moved]
        exact least inside valid
    · next short =>
      rw [if_neg (by omega)]
      exact ⟨⟨by omega, by omega, inside⟩, fun other valid => least inside valid⟩
  · have beyond : (2 : ℚ) ^ 1024 ≤ number := by
      rw [← ends]
      exact (finer_le (by omega)).trans lower
    split <;> rw [if_pos (by omega)] <;> exact infinite_nearest beyond

private theorem pow_le_of_length (positive : 0 < factor)
    (long : factor < (Nat.toDigits 10 number).length) : 10 ^ factor ≤ number := by
  rw [← Nat.not_lt, ← Nat.length_toDigits_le_iff (by decide) positive]
  omega

/-- Digits are rounded to the nearest magnitude. -/
theorem ofDecimal_nearest (number : Nat) : (ofDecimal number 0).Nearest number := by
  rw [ofDecimal]
  split
  · next none =>
    obtain rfl : number = 0 := by omega
    exact ⟨⟨by norm_num, by norm_num, by norm_num⟩, fun other _ => by simp [place]⟩
  · next some =>
    simp only [not_or] at some
    split
    · next long =>
      have wide : (2 : Nat) ^ 1024 ≤ 10 ^ 309 := by decide +kernel
      have digits : 10 ^ 309 ≤ number := pow_le_of_length (by decide) (by omega)
      have behind : ((2 ^ 1024 : Nat) : ℚ) ≤ number := Nat.cast_le.mpr (wide.trans digits)
      rw [Nat.cast_pow, Nat.cast_two] at behind
      exact infinite_nearest behind
    · simpa [scaled] using ofQuotient_nearest some.1

/-! Doubles nearest to integers. -/

/-- The double of an integer literal. -/
def ofInteger (integer : Int) : Double := ⟨integer < 0, ofDecimal integer.natAbs 0⟩

/-- Where a double stands among the numbers. -/
def place (x : Double) : ℚ := if x.negative then -x.magnitude.place else x.magnitude.place

/-- The number that a double is; none for one beyond the format. -/
def value? (x : Double) : Option ℚ :=
  match x.magnitude with
  | .finite _ _ => some x.place
  | .infinite => none

/-- A double of the format that no other is nearer to an integer than. -/
structure Nearest (x : Double) (integer : Int) : Prop where
  valid : x.magnitude.Valid
  least : ∀ other : Double, other.magnitude.Valid →
    |x.place - integer| ≤ |other.place - integer|

/-- An integer that a double is. -/
def Held (integer : Int) : Prop := ∃ x : Double, x.magnitude.Valid ∧ x.value? = some (integer : ℚ)

private theorem place_nonneg (magnitude : Magnitude) : 0 ≤ magnitude.place := by
  cases magnitude <;> rw [Magnitude.place] <;> positivity

private theorem abs_place (x : Double) : |x.place| = x.magnitude.place := by
  rw [place]
  split
  · rw [abs_neg, abs_of_nonneg (place_nonneg _)]
  · exact abs_of_nonneg (place_nonneg _)

/-- An integer literal stands for the nearest double. -/
theorem ofInteger_nearest (integer : Int) : (ofInteger integer).Nearest integer := by
  obtain ⟨valid, least⟩ := ofDecimal_nearest integer.natAbs
  have size : (integer.natAbs : ℚ) = |(integer : ℚ)| := by
    rw [Nat.cast_natAbs, Int.cast_abs]
  refine ⟨valid, fun other valid => ?_⟩
  calc |(ofInteger integer).place - integer|
      = |(ofDecimal integer.natAbs 0).place - integer.natAbs| := by
        rw [place, ofInteger, size]
        by_cases negative : integer < 0
        · have below : (integer : ℚ) < 0 := by exact_mod_cast negative
          simp only [negative, decide_true, if_true]
          rw [abs_of_neg below, ← abs_neg]
          congr 1
          ring
        · have above : (0 : ℚ) ≤ integer := by exact_mod_cast Int.not_lt.mp negative
          simp only [negative, decide_false, Bool.false_eq_true, if_false]
          rw [abs_of_nonneg above]
    _ ≤ |other.magnitude.place - integer.natAbs| := least _ valid
    _ = |(|other.place| - |(integer : ℚ)|)| := by rw [abs_place, size]
    _ ≤ |other.place - integer| := abs_abs_sub_abs_le _ _

/-- The nearest double is the integer itself if any double is. -/
theorem Nearest.exact (nearest : x.Nearest integer) (held : Held integer) :
    x.value? = some (integer : ℚ) := by
  obtain ⟨⟨negative, magnitude⟩, valid, same⟩ := held
  cases magnitude with
  | infinite => cases same
  | finite significand exponent =>
    have there : Double.place ⟨negative, .finite significand exponent⟩ = integer :=
      Option.some.inj same
    have least := nearest.least _ valid
    rw [there, sub_self, abs_zero, abs_nonpos_iff, sub_eq_zero] at least
    obtain ⟨sign, reached⟩ := x
    cases reached with
    | finite => exact congrArg some least
    | infinite =>
      have inside := place_lt valid
      rw [← abs_place ⟨negative, .finite significand exponent⟩, there, ← least, abs_place] at inside
      exact absurd inside (lt_irrefl _)

/-- All integers of 53 binary digits are doubles, and the power of two behind them. -/
theorem held_of_small (small : integer.natAbs ≤ 2 ^ 53) : Held integer := by
  have signed : (if integer < 0 then -(integer.natAbs : ℚ) else integer.natAbs) = integer := by
    rw [Nat.cast_natAbs, Int.cast_abs]
    split
    · next negative => rw [abs_of_neg (by exact_mod_cast negative), neg_neg]
    · next positive => rw [abs_of_nonneg (by exact_mod_cast Int.not_lt.mp positive)]
  rcases small.lt_or_eq with less | most
  · refine ⟨⟨integer < 0, .finite integer.natAbs 0⟩, ⟨less, by decide, by decide⟩, ?_⟩
    simpa [value?, place, Magnitude.place] using signed
  · refine ⟨⟨integer < 0, .finite (2 ^ 52) 1⟩, ⟨by decide, by decide, by decide⟩, ?_⟩
    have doubled : ((2 ^ 52 : Nat) : ℚ) * 2 ^ (1 : Int) = integer.natAbs := by
      rw [most]
      norm_num
    simp only [value?, place, Magnitude.place, doubled, decide_eq_true_eq, signed]

end Double
end ApiScribe
