import LinOpt.Proofs.Scalar.Magnitude

/-!
# Decimal numbers

The floating-point number closest to a decimal number is a number, if need be an infinity: it is a
product with a power of ten or a quotient by one, and a power of ten is neither zero nor infinite.
-/

namespace LinOpt

open Float.Model (Format UnpackedFloat)
open Float.Model.UnpackedFloat

namespace Unpacked

variable {spec : Format}

/-! ### Operations without NaN -/

theorem roundWithAccuracy_ne_nan (s : Sign) (m : Nat) (e : Int) (accuracy : Accuracy) :
    roundWithAccuracy spec s m e accuracy ≠ .notANumber := by
  unfold roundWithAccuracy
  dsimp only
  split_ifs <;> exact UnpackedFloat.noConfusion

theorem mul_finite_ne_nan {u : UnpackedFloat} (number : u ≠ .notANumber) (s : Sign) (m : Nat)
    (e : Int) (positive : 0 < m) : mul spec u (.finite s m e positive) ≠ .notANumber := by
  cases u with
  | notANumber => exact absurd rfl number
  | finite =>
    rw [mul]
    exact roundWithAccuracy_ne_nan _ _ _ _
  | infinity | zero => exact UnpackedFloat.noConfusion

theorem div_finite_ne_nan {u : UnpackedFloat} (number : u ≠ .notANumber) (s : Sign) (m : Nat)
    (e : Int) (positive : 0 < m) : div spec u (.finite s m e positive) ≠ .notANumber := by
  cases u with
  | notANumber => exact absurd rfl number
  | finite =>
    rw [div]
    exact roundWithAccuracy_ne_nan _ _ _ _
  | infinity | zero => exact UnpackedFloat.noConfusion

theorem ofScientific_ne_nan (digits : Nat) (exponent : Int) :
    UnpackedFloat.ofScientific spec digits exponent ≠ .notANumber := by
  unfold UnpackedFloat.ofScientific
  split_ifs
  · exact UnpackedFloat.noConfusion
  · exact UnpackedFloat.noConfusion
  · exact UnpackedFloat.noConfusion
  · exact mul_finite_ne_nan UnpackedFloat.noConfusion _ _ _ _
  · exact div_finite_ne_nan UnpackedFloat.noConfusion _ _ _ _

theorem ofUInt64_ne_nan (n : UInt64) : UnpackedFloat.ofUInt64 spec n ≠ .notANumber := by
  unfold UnpackedFloat.ofUInt64 UnpackedFloat.ofNat UnpackedFloat.ofInt
    Float.Model.UnpackedFloat.normalize
  split
  · exact roundWithAccuracy_ne_nan _ _ _ _
  · exact UnpackedFloat.noConfusion
  · exact roundWithAccuracy_ne_nan _ _ _ _

/-! ### Packing -/

theorem unpack_packComponents_ne_nan (s : Sign) {e : BitVec spec.exponentBits}
    {m : BitVec spec.mantissaBitsWithoutImplicit} (ordinary : e = -1#_ → m = 0#_) :
    unpack spec (packComponents spec s e m) ≠ .notANumber := by
  simp only [unpack, unpackMantissa_packComponents, unpackExponent_packComponents]
  split_ifs with last full
  · exact UnpackedFloat.noConfusion
  · exact absurd (ordinary last) full
  · exact UnpackedFloat.noConfusion
  · exact UnpackedFloat.noConfusion
  · exact UnpackedFloat.noConfusion

/-- An exponent below the last one is not the one of an infinity. -/
theorem ofNat_ne_last {width n : Nat} (below : n + 1 < 2 ^ width) :
    BitVec.ofNat width n ≠ -1#_ := by
  intro same
  have value := congrArg BitVec.toNat same
  rw [BitVec.toNat_ofNat, Nat.mod_eq_of_lt (by omega), BitVec.neg_one_eq_allOnes,
    BitVec.toNat_allOnes] at value
  omega

theorem unpack_pack_ne_nan {u : UnpackedFloat} (number : u ≠ .notANumber) :
    unpack spec (pack spec u) ≠ .notANumber := by
  cases u with
  | notANumber => exact absurd rfl number
  | zero s => exact unpack_packComponents_ne_nan s fun _ => rfl
  | infinity s => exact unpack_packComponents_ne_nan s fun _ => rfl
  | finite s m e positive =>
    have width := Nat.one_lt_two_pow spec.he.ne'
    rw [pack]
    -- A number that does not overflow has an exponent below the one of the infinities.
    split_ifs with large normal
    · exact unpack_packComponents_ne_nan s fun _ => rfl
    · exact unpack_packComponents_ne_nan s fun last => absurd last (ofNat_ne_last (by omega))
    · exact unpack_packComponents_ne_nan s fun last => absurd last (ofNat_ne_last (by omega))

end Unpacked

/-! ### Decimal numbers -/

theorem float_isNaN_eq_false_iff {x : Float} :
    x.isNaN = false ↔ x.toModel.unpack ≠ .notANumber := by
  rw [Bool.eq_false_iff, ne_eq, float_isNaN_iff]

theorem float_exists_finite {x : Float} (finite : x.isFinite = true) (nonzero : (x == 0) = false) :
    ∃ s m e positive, x.toModel.unpack = .finite s m e positive := by
  rw [Bool.eq_false_iff, ne_eq, float_beq_zero] at nonzero
  have finite : x.toModel.unpack.isFinite = true := finite
  cases unpacked : x.toModel.unpack with
  | finite s m e positive => exact ⟨s, m, e, positive, rfl⟩
  | zero s => exact absurd ⟨s, unpacked⟩ nonzero
  | notANumber | infinity =>
    rw [unpacked] at finite
    cases finite

theorem float_isNaN_mul {x y : Float} (number : x.isNaN = false) (finite : y.isFinite = true)
    (nonzero : (y == 0) = false) : (x * y).isNaN = false := by
  obtain ⟨s, m, e, positive, unpacked⟩ := float_exists_finite finite nonzero
  rw [float_isNaN_eq_false_iff] at number ⊢
  show unpack Format.binary64 (pack Format.binary64
    (mul Format.binary64 x.toModel.unpack y.toModel.unpack)) ≠ _
  rw [unpacked]
  exact Unpacked.unpack_pack_ne_nan (Unpacked.mul_finite_ne_nan number _ _ _ _)

theorem float_isNaN_div {x y : Float} (number : x.isNaN = false) (finite : y.isFinite = true)
    (nonzero : (y == 0) = false) : (x / y).isNaN = false := by
  obtain ⟨s, m, e, positive, unpacked⟩ := float_exists_finite finite nonzero
  rw [float_isNaN_eq_false_iff] at number ⊢
  show unpack Format.binary64 (pack Format.binary64
    (div Format.binary64 x.toModel.unpack y.toModel.unpack)) ≠ _
  rw [unpacked]
  exact Unpacked.unpack_pack_ne_nan (Unpacked.div_finite_ne_nan number _ _ _ _)

theorem isNaN_ofScientific (digits : Nat) (negative : Bool) (exponent : Nat) :
    (Float.ofScientific digits negative exponent).isNaN = false := by
  have powers : ∀ place : Fin 23, Float.exactlyRepresentablePowersOfTen[place].isFinite = true ∧
      (Float.exactlyRepresentablePowersOfTen[place] == 0) = false := by decide
  have whole : digits.toUInt64.toFloat.isNaN = false :=
    float_isNaN_eq_false_iff.mpr (Unpacked.unpack_pack_ne_nan (Unpacked.ofUInt64_ne_nan _))
  have rounded (power : Int) : (Float.ofModel (.ofScientific digits power)).isNaN = false :=
    float_isNaN_eq_false_iff.mpr (Unpacked.unpack_pack_ne_nan (Unpacked.ofScientific_ne_nan _ _))
  -- Few digits and a small exponent take one exact step, everything else is rounded once.
  unfold Float.ofScientific
  split_ifs with small
  · obtain ⟨finite, nonzero⟩ := powers ⟨exponent, by omega⟩
    exact float_isNaN_div whole finite nonzero
  · obtain ⟨finite, nonzero⟩ := powers ⟨exponent, by omega⟩
    exact float_isNaN_mul whole finite nonzero
  · exact rounded _
  · exact rounded _

/-- A decimal number is never NaN. -/
theorem isNaN_floatOfDecimal (digits : Nat) (exponent : Int) :
    (floatOfDecimal digits exponent).isNaN = false := by
  unfold floatOfDecimal
  dsimp only
  split_ifs
  · decide
  · decide
  · exact isNaN_ofScientific _ _ _
  · exact isNaN_ofScientific _ _ _

end LinOpt
