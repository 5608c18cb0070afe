import LinOpt.Proofs.Scalar.Negation

/-!
# Comparisons of floating-point numbers

Comparisons are defined on unpacked numbers. With zero a number compares by its sign alone, and NaN
compares with nothing.
-/

namespace LinOpt

open Float.Model.UnpackedFloat

theorem float_le_iff (x y : Float) :
    x ≤ y ↔ x.toModel.unpack.le y.toModel.unpack = true := by
  show decide (x.toModel ≤ y.toModel) = true ↔ _
  rw [decide_eq_true_eq]
  rfl

theorem float_lt_iff (x y : Float) :
    x < y ↔ x.toModel.unpack.lt y.toModel.unpack = true := by
  show decide (x.toModel < y.toModel) = true ↔ _
  rw [decide_eq_true_eq]
  rfl

theorem float_isNaN_iff (x : Float) : x.isNaN = true ↔ x.toModel.unpack = .notANumber :=
  isNaN_iff

theorem float_unpack_zero : (0 : Float).toModel.unpack = .zero .positive := rfl

/-- Only NaN is neither negative nor at least zero. -/
theorem float_nonneg_iff (x : Float) : 0 ≤ x ↔ ¬ x < 0 ∧ ¬ x.isNaN = true := by
  rw [float_le_iff, float_lt_iff, float_isNaN_iff, float_unpack_zero]
  cases x.toModel.unpack with
  | notANumber => simp [Float.Model.UnpackedFloat.le, Float.Model.UnpackedFloat.compare]
  | zero sign => cases sign <;> simp <;> decide
  | infinity sign => cases sign <;> simp <;> decide
  | finite sign mantissa exponent nonzero =>
    cases sign <;>
      simp [Float.Model.UnpackedFloat.le, Float.Model.UnpackedFloat.lt,
        Float.Model.UnpackedFloat.compare]

/-- The negation of a negative number is not negative. -/
theorem float_neg_not_neg (x : Float) (negative : x < 0) : ¬ -x < 0 := by
  rw [float_lt_iff, float_unpack_zero] at negative ⊢
  rw [float_unpack_neg]
  cases unpacked : x.toModel.unpack with
  | notANumber => simp [Float.Model.UnpackedFloat.lt, neg, Float.Model.UnpackedFloat.compare]
  | zero sign => cases sign <;> decide
  | infinity sign =>
    rw [unpacked] at negative
    cases sign with
    | negative => decide
    | positive => exact absurd negative (by decide)
  | finite sign mantissa exponent nonzero =>
    rw [unpacked] at negative
    cases sign with
    | negative => exact Bool.false_ne_true
    | positive => cases negative

theorem float_zero_not_pos {x : Float} (zero : (x == 0) = true) : ¬ 0 < x := by
  obtain ⟨sign, unpacked⟩ := (float_beq_zero x).mp zero
  rw [float_lt_iff, unpacked, float_unpack_zero]
  cases sign <;> decide

/-- Only NaN is neither at most zero nor at least zero. -/
theorem nonneg_or_isNaN {x : Float} (positive : ¬ x ≤ 0) : 0 ≤ x ∨ x.isNaN = true := by
  rw [float_le_iff, float_unpack_zero] at positive
  rw [float_le_iff, float_isNaN_iff, float_unpack_zero]
  cases unpacked : x.toModel.unpack with
  | notANumber => exact Or.inr rfl
  | zero sign => exact Or.inl rfl
  | infinity sign =>
    rw [unpacked] at positive
    cases sign with
    | negative => exact absurd rfl positive
    | positive => exact Or.inl rfl
  | finite sign mantissa exponent nonzero =>
    rw [unpacked] at positive
    cases sign with
    | negative => exact absurd rfl positive
    | positive => exact Or.inl rfl

/-! ### Endpoints -/

theorem endpoint_isNaN (x : Float) : Endpoint.isNaN x = x.isNaN := by
  rw [Float.isNaN_eq_decide_eq_nan]
  show (!(x == x)) = _
  by_cases same : x = .nan <;> simp [same]

/-- What is not finite is an infinity or NaN. -/
theorem float_eq_infinity {x : Float} (notFinite : x.isFinite = false) (number : x.isNaN = false) :
    x = -1 / 0 ∨ x = 1 / 0 := by
  have unpackedFinite : x.toModel.unpack.isFinite = false := notFinite
  cases unpacked : x.toModel.unpack with
  | notANumber => exact absurd ((float_isNaN_iff x).mpr unpacked) (Bool.eq_false_iff.mp number)
  | infinity sign =>
    cases sign with
    | negative => exact .inl (float_ext unpacked)
    | positive => exact .inr (float_ext unpacked)
  | _ => simp [unpacked, Float.Model.UnpackedFloat.isFinite] at unpackedFinite

/-- Only NaN and the zeros make equality of numbers differ from identity. -/
theorem float_beq_iff_eq {y : Float} (ordinary : y ≠ .nan ∧ y ≠ 0 ∧ y ≠ -0) (x : Float) :
    (x == y) = true ↔ x = y := by
  obtain ⟨number, positive, negative⟩ := ordinary
  rw [Float.beq_iff_ne_nan_and_eq]
  constructor
  · rintro ⟨_, _, same | ⟨_, zero⟩ | ⟨_, zero⟩⟩
    · exact same
    · exact absurd zero negative
    · exact absurd zero positive
  · rintro rfl
    exact ⟨number, number, Or.inl rfl⟩

theorem float_beq_comm (x y : Float) : (x == y) = (y == x) := by
  rw [Bool.eq_iff_iff, Float.beq_iff_ne_nan_and_eq, Float.beq_iff_ne_nan_and_eq]
  grind

theorem float_beq_self {x : Float} (number : x.isNaN = false) : (x == x) = true := by
  rw [← endpoint_isNaN] at number
  simpa [Endpoint.isNaN] using number

end LinOpt
