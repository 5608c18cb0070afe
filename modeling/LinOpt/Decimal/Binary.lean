/-!
# The value of a floating-point number

A finite floating-point number is a sign and a magnitude `mantissa * 2 ^ exponent`. Texts of
numbers are computed from the magnitude in exact arithmetic.
-/

namespace LinOpt

/-- The magnitude `mantissa * 2 ^ exponent`. -/
structure Binary where
  mantissa : Nat
  exponent : Int
  deriving Repr, DecidableEq

namespace Binary

/-- Numerator and denominator of `numerator * 2 ^ exponent`. -/
def fraction (numerator : Nat) (exponent : Int) : Nat × Nat :=
  if 0 ≤ exponent then (numerator * Nat.pow 2 exponent.toNat, 1)
  else (numerator, Nat.pow 2 (-exponent).toNat)

/-- The next smaller magnitude is only half as far away as the next larger one. -/
def isBoundary (value : Binary) : Bool :=
  value.mantissa = Nat.pow 2 52 && -1074 < value.exponent

end Binary

/-- What a floating-point number stands for. -/
inductive FloatValue where
  | nan
  | infinite (negative : Bool)
  | finite (negative : Bool) (magnitude : Binary)
  deriving Repr, DecidableEq

namespace FloatValue

/-- Reads the sign, the eleven bits of the exponent and the fifty-two bits of the mantissa. -/
def ofFloat (x : Float) : FloatValue :=
  let bits := x.toBits.toNat
  let negative := decide (Nat.pow 2 63 ≤ bits)
  let biased : Nat := bits / Nat.pow 2 52 % 2048
  let fraction := bits % Nat.pow 2 52
  if biased = 2047 then
    if fraction = 0 then .infinite negative else .nan
  else if biased = 0 then .finite negative ⟨fraction, -1074⟩
  else .finite negative ⟨Nat.pow 2 52 + fraction, (biased : Int) - 1075⟩

end FloatValue

end LinOpt
