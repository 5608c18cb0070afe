import Mathlib.Data.EReal.Operations
import LinOpt.Decimal.Numeral
import LinOpt.Problem
import LinOpt.Proofs.Scalar.Decimal
import LinOpt.Scalar.Rational

/-!
# Endpoints on the extended real line

An endpoint has a place on the extended real line, unless it is NaN. Rational numbers have their
own places, and floating-point numbers those of the numbers that they stand for.
-/

namespace LinOpt

noncomputable def Binary.toReal (magnitude : Binary) : ℝ :=
  magnitude.mantissa * 2 ^ magnitude.exponent

namespace FloatValue

noncomputable def value? : FloatValue → Option EReal
  | .nan => none
  | .infinite negative => some (if negative then ⊥ else ⊤)
  | .finite negative magnitude =>
    some ((if negative then -magnitude.toReal else magnitude.toReal : ℝ) : EReal)

theorem value?_infinite_not (negative : Bool) :
    (infinite !negative).value? = (infinite negative).value?.map (- ·) := by
  cases negative <;> simp [value?]

theorem value?_finite_not (negative : Bool) (magnitude : Binary) :
    (finite (!negative) magnitude).value? = (finite negative magnitude).value?.map (- ·) := by
  cases negative <;> simp [value?]

theorem value?_neg (x : Float) :
    (ofFloat (-x)).value? = (ofFloat x).value?.map (- ·) := by
  rw [ofFloat_eq, ofFloat_eq, float_unpack_neg]
  have turned (s : Float.Model.UnpackedFloat.Sign) :
      Unpacked.isNegative (-s) = !Unpacked.isNegative s := by cases s <;> rfl
  cases x.toModel.unpack with
  | notANumber => rfl
  | infinity s =>
    rw [Float.Model.UnpackedFloat.neg, ofUnpacked, turned]
    exact value?_infinite_not _
  | zero s =>
    rw [Float.Model.UnpackedFloat.neg, ofUnpacked, turned]
    exact value?_finite_not _ _
  | finite s m e positive =>
    rw [Float.Model.UnpackedFloat.neg, ofUnpacked, turned]
    exact value?_finite_not _ _

theorem exists_value {x : Float} (number : x.isNaN = false) : ∃ v, (ofFloat x).value? = some v := by
  cases found : ofFloat x with
  | nan =>
    rw [float_isNaN_of_nan found] at number
    cases number
  | infinite negative => exact ⟨_, rfl⟩
  | finite negative magnitude => exact ⟨_, rfl⟩

end FloatValue

/-- Endpoints with places on the extended real line. -/
class Valued (β : Type) (α : outParam Type) [Scalar α] [Endpoint β α] where
  /-- The place of an endpoint; NaN has none. -/
  value? : β → Option EReal
  value?_neg (x : α) : value? (Endpoint.ofScalar (-x)) = (value? (Endpoint.ofScalar x)).map (- ·)
  value?_negInf : value? Endpoint.negInf = some ⊥
  value?_posInf : value? Endpoint.posInf = some ⊤
  exists_value (numeral : Numeral) : ∃ v, value? (Endpoint.ofScalar numeral.toScalar) = some v

noncomputable instance : Valued Float Float where
  value? x := (FloatValue.ofFloat x).value?
  value?_neg := FloatValue.value?_neg
  value?_negInf := rfl
  value?_posInf := rfl
  exists_value numeral :=
    FloatValue.exists_value (isNaN_floatOfDecimal numeral.digits numeral.exponent)

/-- The place of a rational number or an infinity. -/
noncomputable def ExtendedRat.value : ExtendedRat → EReal
  | .negInf => ⊥
  | .finite x => ((x : ℝ) : EReal)
  | .posInf => ⊤

noncomputable instance : Valued ExtendedRat Rat where
  value? x := some x.value
  value?_neg x := congrArg some (by simp [Endpoint.ofScalar, ExtendedRat.value])
  value?_negInf := rfl
  value?_posInf := rfl
  exists_value numeral := ⟨_, rfl⟩

/-- The comparison that is written with a relation. -/
def Sense.Relates (sense : Sense) (x y : EReal) : Prop :=
  match sense with
  | .le => x ≤ y
  | .ge => x ≥ y
  | .eq => x = y

end LinOpt
