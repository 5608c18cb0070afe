import Mathlib.Data.Prod.Lex
import LinOpt.Proofs.Scalar.Decimal
import LinOpt.Proofs.Scalar.Order

/-!
# The order of floating-point numbers

Of the floating-point numbers NaN alone is not in order, and the two zeros share a place. An
unpacked number has its place by kind, then by exponent, then by mantissa; a comparison of numbers
is the one of their places.
-/

namespace LinOpt

open Float.Model (UnpackedFloat)

namespace Unpacked

/-- The place of a number in the order. -/
def place? : UnpackedFloat → Option (ℤ ×ₗ ℤ ×ₗ ℤ)
  | .notANumber => none
  | .infinity .negative => some (toLex (-2, toLex (0, 0)))
  | .finite .negative mantissa exponent _ => some (toLex (-1, toLex (-exponent, -mantissa)))
  | .zero _ => some (toLex (0, toLex (0, 0)))
  | .finite .positive mantissa exponent _ => some (toLex (1, toLex (exponent, mantissa)))
  | .infinity .positive => some (toLex (2, toLex (0, 0)))

theorem compare_natCast (m n : ℕ) : compare (m : ℤ) n = compare m n := by
  simp [compare, compareOfLessAndEq]

theorem compare_neg_neg (x y : ℤ) : compare (-x) (-y) = (compare x y).swap := by
  rw [← Std.OrientedCmp.eq_swap]
  simp [compare, compareOfLessAndEq, eq_comm]

theorem compare_eq (u v : UnpackedFloat) :
    u.compare v = (place? u).bind fun left => (place? v).map (compare left) := by
  cases u with
  | notANumber => rfl
  | infinity s | zero s =>
    cases s <;> cases v with
    | notANumber => rfl
    | infinity t | zero t | finite t => cases t <;> rfl
  | finite s m e =>
    cases v with
    | notANumber => cases s <;> rfl
    | infinity t | zero t => cases s <;> cases t <;> rfl
    | finite t n f =>
      cases s with
      | negative =>
        cases t with
        | negative =>
          show some ((compare e f).then (compare m n)).swap =
            some ((compare (-e) (-f)).then (compare (-m : ℤ) (-n)))
          rw [compare_neg_neg, compare_neg_neg, compare_natCast, Ordering.swap_then]
        | positive => rfl
      | positive =>
        cases t with
        | negative => rfl
        | positive =>
          show some ((compare e f).then (compare m n)) =
            some ((compare e f).then (compare (m : ℤ) n))
          rw [compare_natCast]

theorem place?_eq_none_iff (u : UnpackedFloat) : place? u = none ↔ u = .notANumber := by
  cases u with
  | notANumber => simp [place?]
  | infinity s | zero s | finite s => cases s <;> simp [place?]

end Unpacked

/-- The place of a floating-point number in the order; NaN has none. -/
def floatPlace? (x : Float) : Option (ℤ ×ₗ ℤ ×ₗ ℤ) := Unpacked.place? x.toModel.unpack

section Places

variable {x y z : Float}

theorem exists_floatPlace (number : x.isNaN = false) : ∃ place, floatPlace? x = some place := by
  rw [← Option.ne_none_iff_exists', floatPlace?, ne_eq, Unpacked.place?_eq_none_iff]
  exact float_isNaN_eq_false_iff.mp number

theorem float_le_iff_places :
    x ≤ y ↔ ∃ left ∈ floatPlace? x, ∃ right ∈ floatPlace? y, left ≤ right := by
  rw [float_le_iff, UnpackedFloat.le, Unpacked.compare_eq, floatPlace?, floatPlace?]
  cases Unpacked.place? x.toModel.unpack <;> cases Unpacked.place? y.toModel.unpack <;>
    simp [Ordering.isLE_iff_ne_gt, compare_le_iff_le]

theorem float_lt_iff_places :
    x < y ↔ ∃ left ∈ floatPlace? x, ∃ right ∈ floatPlace? y, left < right := by
  rw [float_lt_iff, UnpackedFloat.lt, Unpacked.compare_eq, floatPlace?, floatPlace?]
  cases Unpacked.place? x.toModel.unpack <;> cases Unpacked.place? y.toModel.unpack <;>
    simp [compare_lt_iff_lt]

theorem float_beq_iff_places :
    (x == y) = true ↔ ∃ place ∈ floatPlace? y, place ∈ floatPlace? x := by
  show x.toModel.unpack.beq y.toModel.unpack = true ↔ _
  rw [UnpackedFloat.beq, Unpacked.compare_eq, floatPlace?, floatPlace?]
  cases Unpacked.place? x.toModel.unpack <;> cases Unpacked.place? y.toModel.unpack <;>
    simp [compare_eq_iff_eq]

theorem float_le_trans (first : x ≤ y) (second : y ≤ z) : x ≤ z := by
  obtain ⟨left, placeX, middle, placeY, le⟩ := float_le_iff_places.mp first
  obtain ⟨middle', placeY', right, placeZ, le'⟩ := float_le_iff_places.mp second
  obtain rfl : middle = middle' := Option.mem_unique placeY placeY'
  exact float_le_iff_places.mpr ⟨left, placeX, right, placeZ, le.trans le'⟩

theorem float_le_total (left : x.isNaN = false) (right : y.isNaN = false) : x ≤ y ∨ y ≤ x := by
  obtain ⟨first, placeX⟩ := exists_floatPlace left
  obtain ⟨second, placeY⟩ := exists_floatPlace right
  rcases le_total first second with le | le
  · exact .inl (float_le_iff_places.mpr ⟨first, placeX, second, placeY, le⟩)
  · exact .inr (float_le_iff_places.mpr ⟨second, placeY, first, placeX, le⟩)

theorem float_lt_iff_le_not_ge : x < y ↔ x ≤ y ∧ ¬ y ≤ x := by
  rw [float_lt_iff_places, float_le_iff_places, float_le_iff_places]
  constructor
  · rintro ⟨left, placeX, right, placeY, less⟩
    refine ⟨⟨left, placeX, right, placeY, less.le⟩, ?_⟩
    rintro ⟨right', placeY', left', placeX', back⟩
    rw [Option.mem_unique placeX' placeX, Option.mem_unique placeY' placeY] at back
    exact absurd less (not_lt.mpr back)
  · rintro ⟨⟨left, placeX, right, placeY, _⟩, notLe⟩
    refine ⟨left, placeX, right, placeY, not_le.mp fun back => notLe ?_⟩
    exact ⟨right, placeY, left, placeX, back⟩

theorem float_beq_iff_le : (x == y) = true ↔ x ≤ y ∧ y ≤ x := by
  rw [float_beq_iff_places, float_le_iff_places, float_le_iff_places]
  constructor
  · rintro ⟨place, placeY, placeX⟩
    exact ⟨⟨place, placeX, place, placeY, le_rfl⟩, ⟨place, placeY, place, placeX, le_rfl⟩⟩
  · rintro ⟨⟨left, placeX, right, placeY, le⟩, ⟨right', placeY', left', placeX', back⟩⟩
    rw [Option.mem_unique placeX' placeX, Option.mem_unique placeY' placeY] at back
    exact ⟨right, placeY, le_antisymm le back ▸ placeX⟩

end Places

theorem isNaN_float (x : Float) : Scalar.isNaN x = x.isNaN := endpoint_isNaN x

theorem float_orderLaws : Scalar.OrderLaws Float where
  le_trans := float_le_trans
  le_total left right :=
    float_le_total ((isNaN_float _).symm.trans left) ((isNaN_float _).symm.trans right)
  lt_iff := float_lt_iff_le_not_ge
  beq_iff := float_beq_iff_le

end LinOpt
