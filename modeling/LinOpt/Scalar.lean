/-!
# Numbers

The algorithms of this library are written once, over any type of scalars. Programs run them on
floating-point numbers, where every operation rounds and NaN compares with nothing; over the
rational numbers the same definitions are their exact reading. A scalar therefore promises
operations and no laws: a theorem that needs a law names the type it holds for.
-/

namespace LinOpt

/-- Numbers with the arithmetic, the comparisons and the decimal literals that the library uses. -/
class Scalar (α : Type) extends Zero α, One α, Add α, Sub α, Mul α, Div α, Neg α, LT α, LE α,
    BEq α where
  decLt : DecidableLT α
  decLe : DecidableLE α
  abs : α → α
  /-- The neutral start of a sum; with signed zeros it is the negative one, since `-0 + x` is `x`
  for every `x`. -/
  emptySum : α
  /-- The scalar closest to `digits * 10 ^ exponent`. -/
  ofDecimal : (digits : Nat) → (exponent : Int) → α

namespace Scalar

variable {α : Type} [Scalar α]

instance : DecidableLT α := decLt

instance : DecidableLE α := decLe

/-- NaN is what differs from itself. -/
def isNaN (x : α) : Bool := !(x == x)

/-- The larger of two numbers; a NaN loses against everything. -/
def larger (x y : α) : α :=
  if x < y || isNaN x then y else x

/-- The total order of magnitudes: NaN is above infinity. -/
def magnitudeLe (x y : α) : Bool :=
  isNaN (abs y) || decide (abs x ≤ abs y)

/-- `-x` when `negative` holds, otherwise `x`. -/
def signed (negative : Bool) (x : α) : α :=
  if negative then -x else x

/-- The sum from left to right. -/
def sum (terms : List α) : α :=
  terms.foldl (· + ·) emptySum

/-- The sum of the products of entries in equal places; the longer list loses its tail. -/
def dot (left right : List α) : α :=
  sum (List.zipWith (· * ·) left right)

end Scalar

end LinOpt
