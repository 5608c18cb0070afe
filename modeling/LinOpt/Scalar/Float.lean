import LinOpt.Bounds

/-!
# Floating-point numbers

The 64-bit floating-point numbers as scalars. Their infinities are numbers, so they are their own
endpoints.
-/

namespace LinOpt

/-- The number of digits of a positive number in base ten. -/
def decimalLength (n : Nat) : Nat := (Nat.toDigits 10 n).length

/-- The floating-point number closest to `digits * 10 ^ exponent`. What is at least `10 ^ 309` is
beyond the largest number, and what is below `10 ^ (-330)` is closest to zero; both are decided
before a power of ten is computed. -/
def floatOfDecimal (digits : Nat) (exponent : Int) : Float :=
  let magnitude := (decimalLength digits : Int) + exponent
  if digits = 0 || magnitude < -330 then 0
  else if 310 < magnitude then 1 / 0
  else if 0 ≤ exponent then Float.ofScientific digits false exponent.toNat
  else Float.ofScientific digits true (-exponent).toNat

instance : Scalar Float where
  zero := 0
  one := 1
  add := (· + ·)
  sub := (· - ·)
  mul := (· * ·)
  div := (· / ·)
  neg := (- ·)
  lt := (· < ·)
  le := (· ≤ ·)
  beq := (· == ·)
  decLt := fun x y => inferInstanceAs (Decidable (x < y))
  decLe := fun x y => inferInstanceAs (Decidable (x ≤ y))
  abs := Float.abs
  emptySum := -0
  ofDecimal := floatOfDecimal

instance : Endpoint Float Float where
  lt := (· < ·)
  beq := (· == ·)
  decLt := fun x y => inferInstanceAs (Decidable (x < y))
  ofScalar := id
  negInf := -1 / 0
  posInf := 1 / 0
  finite? := fun x => if x.isFinite then some x else none

end LinOpt
