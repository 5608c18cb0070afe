import LinOpt.Decimal.Layout
import LinOpt.Proofs.Scalar.Comparison

/-!
# Signs and magnitudes of floating-point numbers

The value of a number that its text is computed from is the unpacked number. A number is its
magnitude with its sign, and its text is the text of the magnitude after the sign.
-/

namespace LinOpt

open Float.Model (Format UnpackedFloat)
open Float.Model.UnpackedFloat

/-- The sign is negative. -/
def Unpacked.isNegative : Sign → Bool
  | .negative => true
  | .positive => false

namespace FloatValue

/-- What an unpacked number stands for. Zero has the exponent of the smallest numbers. -/
def ofUnpacked : UnpackedFloat → FloatValue
  | .notANumber => .nan
  | .infinity sign => .infinite (Unpacked.isNegative sign)
  | .zero sign => .finite (Unpacked.isNegative sign) ⟨0, -1074⟩
  | .finite sign mantissa exponent _ => .finite (Unpacked.isNegative sign) ⟨mantissa, exponent⟩

theorem toNat_unpackMantissa (x : Float) :
    (@unpackMantissa .binary64 x.toBits.toBitVec).toNat = x.toBits.toNat % 2 ^ 52 := by
  rw [unpackMantissa_def, BitVec.extractLsb'_toNat]
  simp

theorem toNat_unpackExponent (x : Float) :
    (@unpackExponent .binary64 x.toBits.toBitVec).toNat = x.toBits.toNat / 2 ^ 52 % 2048 := by
  rw [unpackExponent_def, BitVec.extractLsb'_toNat]
  simp [Nat.shiftRight_eq_div_pow]

/-- The sign is the highest bit. -/
theorem isNegative_unpackSign (x : Float) :
    Unpacked.isNegative (Sign.ofBitVec (@unpackSign .binary64 x.toBits.toBitVec)) =
      decide (2 ^ 63 ≤ x.toBits.toNat) := by
  have bit : (@unpackSign .binary64 x.toBits.toBitVec).toNat = x.toBits.toNat / 2 ^ 63 % 2 := by
    rw [unpackSign_def, BitVec.extractLsb'_toNat]
    simp [Nat.shiftRight_eq_div_pow]
  have bound := x.toBits.toNat_lt
  by_cases clear : @unpackSign .binary64 x.toBits.toBitVec = 0#1
  · rw [clear] at bit ⊢
    have below : x.toBits.toNat < 2 ^ 63 := by
      simp at bit
      omega
    simpa [Sign.ofBitVec, Unpacked.isNegative] using below
  · have set : (@unpackSign .binary64 x.toBits.toBitVec).toNat ≠ 0 :=
      fun zero => clear (BitVec.eq_of_toNat_eq zero)
    have above : 2 ^ 63 ≤ x.toBits.toNat := by omega
    simpa [clear, Sign.ofBitVec, Unpacked.isNegative] using above

theorem ofFloat_eq (x : Float) : ofFloat x = ofUnpacked x.toModel.unpack := by
  show ofFloat x = ofUnpacked (unpack .binary64 x.toBits.toBitVec)
  unfold ofFloat unpack
  simp only [Nat.pow_eq, ← toNat_unpackMantissa, ← toNat_unpackExponent, ← isNegative_unpackSign]
  have largest (exponent : BitVec 11) : exponent = -1#11 ↔ exponent.toNat = 2047 :=
    BitVec.toNat_inj.symm
  have smallest (exponent : BitVec 11) : exponent = 0#11 ↔ exponent.toNat = 0 :=
    BitVec.toNat_inj.symm
  have whole (mantissa : BitVec 52) : mantissa = 0#52 ↔ mantissa.toNat = 0 :=
    BitVec.toNat_inj.symm
  -- A normal number has one more bit in front of its mantissa.
  have leading (mantissa : BitVec 52) : (1#1 ++ mantissa).toNat = 2 ^ 52 + mantissa.toNat := by
    have joined := Nat.two_pow_add_eq_or_of_lt mantissa.isLt 1
    exact (BitVec.toNat_append _ _).trans joined.symm
  have bias : (Format.binary64.exponentBias : Int) = 1023 := rfl
  simp only [largest, smallest, whole]
  split_ifs <;> simp only [ofUnpacked, leading, bias]
  case _ zero => rw [zero]
  case _ zero _ => simp [zero]
  case _ => simp

end FloatValue

/-! ### Magnitudes -/

/-- A magnitude is the number itself or its negation. -/
theorem Unpacked.abs_eq (u : UnpackedFloat) : u.abs = u ∨ u.abs = u.neg := by
  cases u with
  | notANumber => exact .inl rfl
  | infinity sign | zero sign | finite sign =>
    cases sign with
    | positive => exact .inl rfl
    | negative => exact .inr rfl

theorem float_unpack_abs (x : Float) : x.abs.toModel.unpack = x.toModel.unpack.abs := by
  have packed : pack Format.binary64 x.toModel.unpack = x.toModel.toBits.toBitVec :=
    pack_unpack_of_valid x.toModel.valid
  have kept : unpack Format.binary64 (pack Format.binary64 x.toModel.unpack) =
      x.toModel.unpack := by
    rw [packed]
    rfl
  show unpack Format.binary64 (pack Format.binary64 x.toModel.unpack.abs) = _
  obtain same | turned := Unpacked.abs_eq x.toModel.unpack
  · rw [same, kept]
  · rw [turned, Unpacked.unpack_pack_neg, kept]

section Finite

variable {x : Float} {negative : Bool} {magnitude : Binary}

theorem float_isFinite_iff : x.isFinite = true ↔
    ∃ negative magnitude, FloatValue.ofFloat x = .finite negative magnitude := by
  rw [FloatValue.ofFloat_eq]
  show x.toModel.unpack.isFinite = true ↔ _
  cases x.toModel.unpack <;> simp [UnpackedFloat.isFinite, FloatValue.ofUnpacked]

theorem float_isNaN_of_nan (nan : FloatValue.ofFloat x = .nan) : x.isNaN = true := by
  rw [FloatValue.ofFloat_eq] at nan
  rw [float_isNaN_iff]
  cases unpacked : x.toModel.unpack <;> simp [unpacked, FloatValue.ofUnpacked] at nan ⊢

theorem float_isNaN_of_isFinite (finite : x.isFinite = true) : x.isNaN = false := by
  rw [Bool.eq_false_iff]
  intro nan
  rw [float_isNaN_iff] at nan
  have unpacked : x.toModel.unpack.isFinite = true := finite
  rw [nan] at unpacked
  cases unpacked

theorem FloatValue.ofFloat_abs (finite : ofFloat x = .finite negative magnitude) :
    ofFloat x.abs = .finite false magnitude := by
  rw [ofFloat_eq] at finite ⊢
  rw [float_unpack_abs]
  cases unpacked : x.toModel.unpack <;> rw [unpacked] at finite <;> cases finite <;> rfl

/-- A number is its magnitude with its sign. -/
theorem signed_abs (finite : FloatValue.ofFloat x = .finite negative magnitude) :
    Scalar.signed negative x.abs = x := by
  rw [FloatValue.ofFloat_eq] at finite
  apply float_ext
  cases unpacked : x.toModel.unpack with
  | notANumber | infinity => simp [unpacked, FloatValue.ofUnpacked] at finite
  | zero sign | finite sign =>
    rw [unpacked] at finite
    cases sign with
    | negative =>
      cases finite
      show (-x.abs).toModel.unpack = _
      rw [float_unpack_neg, float_unpack_abs, unpacked]
      rfl
    | positive =>
      cases finite
      show x.abs.toModel.unpack = _
      rw [float_unpack_abs, unpacked]
      rfl

theorem infinity_eq (infinite : FloatValue.ofFloat x = .infinite negative) :
    Endpoint.infinity negative = x := by
  rw [FloatValue.ofFloat_eq] at infinite
  apply float_ext
  cases unpacked : x.toModel.unpack with
  | infinity sign =>
    rw [unpacked] at infinite
    cases sign <;> cases infinite <;> rfl
  | _ => simp [unpacked, FloatValue.ofUnpacked] at infinite

/-- The sign of a number other than zero shows in its comparison with zero. -/
theorem negative_eq_decide (finite : FloatValue.ofFloat x = .finite negative magnitude)
    (nonzero : (x == 0) = false) : negative = decide (x < 0) := by
  have zero := (float_beq_zero x).not.mp (by simp [nonzero])
  rw [FloatValue.ofFloat_eq] at finite
  rw [eq_comm, Bool.eq_iff_iff, decide_eq_true_iff, float_lt_iff, float_unpack_zero]
  cases unpacked : x.toModel.unpack with
  | zero sign => exact absurd ⟨sign, unpacked⟩ zero
  | finite sign =>
    rw [unpacked] at finite
    cases sign <;> cases finite <;> simp [Unpacked.isNegative] <;> rfl
  | _ => simp [unpacked, FloatValue.ofUnpacked] at finite

/-- Zero leaves what it is added to, unless that is the negative zero. -/
theorem zero_add_float (nonzero : (x == 0) = false) : 0 + x = x := by
  have zero := (float_beq_zero x).not.mp (by simp [nonzero])
  -- The sum of unpacked numbers is the second one itself, and packing does not round it.
  have packed : pack Format.binary64 x.toModel.unpack = x.toModel.toBits.toBitVec :=
    pack_unpack_of_valid x.toModel.valid
  have kept : add Format.binary64 (.zero .positive) x.toModel.unpack = x.toModel.unpack := by
    cases unpacked : x.toModel.unpack with
    | zero sign => exact absurd ⟨sign, unpacked⟩ zero
    | _ => rfl
  apply float_ext
  show unpack Format.binary64 (pack Format.binary64
    (add Format.binary64 (0 : Float).toModel.unpack x.toModel.unpack)) = _
  rw [float_unpack_zero, kept, packed]
  rfl

theorem Layout.text_finite (layout : Layout)
    (finite : FloatValue.ofFloat x = .finite negative magnitude) :
    layout.text x = signText negative ++ layout.text x.abs := by
  simp [Layout.text, finite, FloatValue.ofFloat_abs finite, signText]

end Finite

end LinOpt
