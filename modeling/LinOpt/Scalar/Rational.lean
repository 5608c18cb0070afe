import LinOpt.Bounds

/-!
# Exact arithmetic

The rational numbers as scalars, and the rational numbers with both infinities as endpoints.
-/

namespace LinOpt

instance : Scalar Rat where
  zero := 0
  one := 1
  add := (· + ·)
  sub := (· - ·)
  mul := (· * ·)
  div := (· / ·)
  neg := (- ·)
  lt := (· < ·)
  le := (· ≤ ·)
  beq := (· == ·)
  decLt := fun x y => inferInstanceAs (Decidable (x < y))
  decLe := fun x y => inferInstanceAs (Decidable (x ≤ y))
  abs := fun x => if x < 0 then -x else x
  emptySum := 0
  ofDecimal := fun digits exponent => (digits : Rat) * 10 ^ exponent

/-- A rational number or an infinity. -/
inductive ExtendedRat where
  | negInf
  | finite (value : Rat)
  | posInf
  deriving DecidableEq

namespace ExtendedRat

def lt : ExtendedRat → ExtendedRat → Bool
  | .negInf, .negInf => false
  | .negInf, _ => true
  | .finite x, .finite y => decide (x < y)
  | .finite _, .posInf => true
  | _, _ => false

def finite? : ExtendedRat → Option Rat
  | .finite value => some value
  | _ => none

instance : Endpoint ExtendedRat Rat where
  lt := fun x y => lt x y = true
  beq := (· == ·)
  decLt := fun x y => inferInstanceAs (Decidable (lt x y = true))
  ofScalar := .finite
  negInf := .negInf
  posInf := .posInf
  finite? := finite?

end ExtendedRat

end LinOpt
