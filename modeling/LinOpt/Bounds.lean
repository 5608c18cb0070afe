import LinOpt.Scalar

/-!
# Bounds of a variable

A bound is a number or one of the two infinities. Floating-point numbers have their infinities
already, so there an endpoint is a number; over the rational numbers the infinities are added.
-/

namespace LinOpt

/-- The ends an interval of numbers `α` can have. -/
class Endpoint (β : Type) (α : outParam Type) extends LT β, BEq β where
  decLt : DecidableLT β
  ofScalar : α → β
  negInf : β
  posInf : β
  /-- The number that a finite endpoint stands for. -/
  finite? : β → Option α

namespace Endpoint

variable {α β : Type} [Endpoint β α]

instance : DecidableLT β := decLt

def isNaN (x : β) : Bool := !(x == x)

/-- The infinity with the given sign. -/
def infinity (negative : Bool) : β :=
  if negative then negInf else posInf

end Endpoint

/-- Lower and upper bound of a variable. Nothing keeps them in order. -/
structure Bounds (β : Type) where
  lower : β
  upper : β
  deriving Repr, BEq, DecidableEq

namespace Bounds

variable {α β : Type} [Scalar α] [Endpoint β α]

def nonNegative : Bounds β := ⟨Endpoint.ofScalar 0, Endpoint.posInf⟩

def free : Bounds β := ⟨Endpoint.negInf, Endpoint.posInf⟩

def fixed (value : β) : Bounds β := ⟨value, value⟩

/-- The bounds are those of a variable that a file does not mention: zero and infinity. -/
def isNonNegative (bounds : Bounds β) : Bool :=
  bounds.lower == Endpoint.ofScalar 0 && bounds.upper == Endpoint.posInf

def isFree (bounds : Bounds β) : Bool :=
  bounds.lower == Endpoint.negInf && bounds.upper == Endpoint.posInf

/-- No number can lie within: a side is NaN, the ends are in the wrong order, or the interval is
beyond one of the infinities. -/
def isMalformed (bounds : Bounds β) : Bool :=
  Endpoint.isNaN bounds.lower || Endpoint.isNaN bounds.upper
    || bounds.lower == Endpoint.posInf || bounds.upper == Endpoint.negInf
    || decide (bounds.upper < bounds.lower)

end Bounds

end LinOpt
