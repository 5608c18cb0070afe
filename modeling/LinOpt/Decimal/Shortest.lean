import LinOpt.Decimal.Binary
import LinOpt.Decimal.Numeral

/-!
# The shortest decimal number that reads back

The decimal numbers that read as a given magnitude form an interval around it, which reaches half
of the way to the next magnitude on either side; its ends belong to it when the mantissa is even.
`shortest` finds the fewest digits with which a decimal number lies in the interval, and among the
numbers with so many digits the one closest to the magnitude.
-/

namespace LinOpt

/-- Which of two equally close decimal numbers is taken. -/
inductive Tie where
  | up
  | toEven
  deriving Repr, DecidableEq

namespace Tie

/-- Whether the upper of two neighbours `lower` and `lower + 1` is taken in a tie. -/
def takesUpper (tie : Tie) (lower : Nat) : Bool :=
  match tie with
  | .up => true
  | .toEven => lower % 2 = 1

end Tie

namespace Binary

/-- The exponent of the first digit of the positive number `numerator / denominator`. -/
def leadingExponent (numerator denominator : Nat) : Int :=
  let estimate : Int :=
    ((Nat.toDigits 10 numerator).length : Int) - (Nat.toDigits 10 denominator).length
  let reaches :=
    if 0 ≤ estimate then decide (denominator * Nat.pow 10 estimate.toNat ≤ numerator)
    else decide (denominator ≤ numerator * Nat.pow 10 (-estimate).toNat)
  if reaches then estimate else estimate - 1

/-- The multiple of `10 ^ exponent` that reads back as the magnitude and is closest to it, if one
of the two neighbours of the magnitude on that grid reads back. -/
def onGrid? (value : Binary) (tie : Tie) (exponent : Int) : Option Numeral :=
  let scale := Nat.pow 10 (-exponent).toNat
  let unit := Nat.pow 10 exponent.toNat
  let quarters (count : Nat) : Nat := (fraction (count * scale) (value.exponent - 2)).1
  let denominator := (fraction 1 (value.exponent - 2)).2 * unit
  let center := quarters (4 * value.mantissa)
  let low := quarters (4 * value.mantissa - if value.isBoundary then 1 else 2)
  let high := quarters (4 * value.mantissa + 2)
  let below := center / denominator
  let closed := value.mantissa % 2 = 0
  let lowerFits := if closed then decide (low ≤ below * denominator)
    else decide (low < below * denominator)
  let upperFits := if closed then decide ((below + 1) * denominator ≤ high)
    else decide ((below + 1) * denominator < high)
  let upperCloser := decide ((2 * below + 1) * denominator < 2 * center)
    || (decide ((2 * below + 1) * denominator = 2 * center) && tie.takesUpper below)
  if upperFits && (!lowerFits || upperCloser) then some ⟨below + 1, exponent⟩
  else if lowerFits then some ⟨below, exponent⟩
  else none

/-- The shortest decimal number that reads back as a positive magnitude. Seventeen digits always
do. -/
def shortest (value : Binary) (tie : Tie) : Numeral :=
  let exact := fraction value.mantissa value.exponent
  let leading := leadingExponent exact.1 exact.2
  let onGrid? (digits : Nat) : Option Numeral := value.onGrid? tie (leading - digits)
  ((List.range 17).findSome? onGrid?).getD ⟨0, 0⟩

end Binary

end LinOpt
