import LinOpt.Proofs.Scalar.Negation

/-!
# Multiplication by one

A floating-point number has the exponent that its format gives to its mantissa. A product with one
has the same leading digits and ends in zeros, so rounding shifts the zeros out and finds the number
again, bit for bit.
-/

namespace LinOpt

open Float.Model (Format UnpackedFloat totalExponent)
open Float.Model.UnpackedFloat

namespace Unpacked

variable {spec : Format}

/-- The exponent is the one that the format has for a number of this size. -/
def Canonical (spec : Format) : UnpackedFloat → Prop
  | .finite _ mantissa exponent _ =>
    spec.targetExponent (totalExponent mantissa exponent) = exponent
  | _ => True

/-- A mantissa that fills its place keeps its exponent, and so does one with the least exponent. -/
theorem targetExponent_eq {mantissa : Nat} {exponent : Int} (digits : Nat)
    (positive : mantissa ≠ 0) (short : mantissa < 2 ^ digits) (fits : digits ≤ spec.mantissaBits)
    (least : spec.minExponent ≤ exponent)
    (long : exponent = spec.minExponent ∨ 2 ^ spec.mantissaBitsWithoutImplicit ≤ mantissa) :
    spec.targetExponent (totalExponent mantissa exponent) = exponent := by
  have below := (Nat.log2_lt positive).mpr short
  have bits : spec.mantissaBits = 1 + spec.mantissaBitsWithoutImplicit := rfl
  simp only [Format.targetExponent, totalExponent]
  rcases long with subnormal | normal
  · omega
  · have above := (Nat.le_log2 positive).mpr normal
    omega

theorem canonical_unpack (b : BitVec spec.numBits) : Canonical spec (unpack spec b) := by
  -- The bias puts the exponent field one in the place of the least exponent.
  have bias : (spec.exponentBias : Int) + spec.mantissaBitsWithoutImplicit =
      1 - spec.minExponent := by
    have positive : 1 ≤ 2 ^ (spec.exponentBits - 1) := Nat.one_le_two_pow
    simp only [Format.exponentBias, Format.minExponent, Format.mantissaBits]
    push_cast [positive]
    omega
  have short := (unpackMantissa b).isLt
  have bits : spec.mantissaBits = 1 + spec.mantissaBitsWithoutImplicit := rfl
  unfold unpack
  dsimp only
  split
  · split <;> trivial
  · split
    next subnormal =>
      split
      · trivial
      next nonzero =>
        have positive : (unpackMantissa b).toNat ≠ 0 := fun zero =>
          nonzero (BitVec.eq_of_toNat_eq zero)
        have lowest : (unpackExponent b).toNat = 0 := by rw [subnormal]; rfl
        exact targetExponent_eq _ positive short (by omega) (by omega) (.inl (by omega))
    next normal =>
      have field : (unpackExponent b).toNat ≠ 0 := fun zero =>
        normal (BitVec.eq_of_toNat_eq zero)
      have implicit : (1#1 ++ unpackMantissa b).toNat =
          2 ^ spec.mantissaBitsWithoutImplicit + (unpackMantissa b).toNat := by
        rw [BitVec.toNat_append, ← Nat.shiftLeft_add_eq_or_of_lt short, Nat.shiftLeft_eq]
        simp
      have positive := Nat.two_pow_pos spec.mantissaBitsWithoutImplicit
      refine targetExponent_eq spec.mantissaBits ?_ ?_ le_rfl (by omega) (.inr ?_)
      · omega
      · rw [implicit, bits, Nat.pow_add]
        omega
      · omega

/-- Shifting a mantissa to the right undoes the zeros at its end, and nothing is left over. -/
theorem shiftRight_mul_two_pow (mantissa k : Nat) :
    (⟨mantissa * 2 ^ k, false, false⟩ : ExtendedMantissa) >>> k = ⟨mantissa, false, false⟩ := by
  show k.repeat ExtendedMantissa.shiftRightOne _ = _
  induction k generalizing mantissa with
  | zero => simp [Nat.repeat]
  | succ k ih =>
    have shifted := ih (mantissa * 2)
    rw [mul_assoc, ← pow_succ'] at shifted
    rw [Nat.repeat, shifted]
    simp [ExtendedMantissa.shiftRightOne]

section Canonical

variable {mantissa : Nat} {exponent : Int} (positive : 0 < mantissa)
  (canonical : spec.targetExponent (totalExponent mantissa exponent) = exponent)

include positive canonical

/-- Zeros at the end of a canonical mantissa are shifted out, and no other digits. -/
theorem shiftToTargetExponent_canonical (k : Nat) :
    shiftToTargetExponent spec (mantissa * 2 ^ k) (exponent - k) .exact =
      (⟨mantissa, false, false⟩, exponent) := by
  -- The zeros take the place of the exponent, so the size of the number is the same.
  have digits : (mantissa * 2 ^ k).log2 = mantissa.log2 + k := by
    induction k with
    | zero => simp
    | succ k ih =>
      rw [pow_succ, ← mul_assoc, mul_comm, Nat.log2_two_mul (by positivity), ih]
      rfl
  have size : totalExponent (mantissa * 2 ^ k) (exponent - k) =
      totalExponent mantissa exponent := by
    simp only [totalExponent, digits]
    omega
  have amount : (exponent - (exponent - (k : Int))).toNat = k := by omega
  simp only [shiftToTargetExponent, shiftToExponent, size, canonical, amount,
    ExtendedMantissa.ofMantissaAndAccuracy, shiftRight_mul_two_pow, sub_add_cancel]

/-- Zeros at the end of a canonical mantissa do not change how the number is rounded. -/
theorem roundWithAccuracy_canonical (s : Sign) (k : Nat) :
    roundWithAccuracy spec s (mantissa * 2 ^ k) (exponent - k) .exact =
      .finite s mantissa exponent positive := by
  have first := shiftToTargetExponent_canonical positive canonical k
  have second := shiftToTargetExponent_canonical positive canonical 0
  rw [pow_zero, mul_one, Int.natCast_zero, sub_zero] at second
  have rounded : (⟨mantissa, false, false⟩ : ExtendedMantissa).roundedMantissa = mantissa := rfl
  unfold roundWithAccuracy
  -- The first shift loses nothing, so the mantissa is not rounded up and the second one is empty.
  rw [first]
  dsimp only
  rw [rounded, second]
  exact dif_neg positive.ne'

end Canonical

theorem sign_mul_comm (s t : Sign) : s * t = t * s := by
  cases s <;> cases t <;> rfl

theorem mul_comm (u v : UnpackedFloat) : mul spec u v = mul spec v u := by
  cases u <;> cases v <;> simp only [mul, sign_mul_comm, Nat.mul_comm, Int.add_comm]

theorem sign_mul_positive (s : Sign) : s * .positive = s := by
  cases s <;> rfl

theorem mul_one {u : UnpackedFloat} (canonical : Canonical Format.binary64 u) :
    mul Format.binary64 u (1 : Float).toModel.unpack = u := by
  have one : (1 : Float).toModel.unpack = .finite .positive (2 ^ 52) (-52) (by decide) := rfl
  rw [one]
  cases u with
  | finite s mantissa exponent positive =>
    have rounded := roundWithAccuracy_canonical positive canonical s 52
    simp only [mul, sign_mul_positive]
    exact rounded
  | _ => simp only [mul, sign_mul_positive]

end Unpacked

theorem float_mul_comm (x y : Float) : x * y = y * x := by
  apply float_ext
  show unpack Format.binary64 (pack Format.binary64
    (mul Format.binary64 x.toModel.unpack y.toModel.unpack)) = _
  rw [Unpacked.mul_comm]
  rfl

theorem float_mul_one (x : Float) : x * 1 = x := by
  apply float_ext
  have packed : pack Format.binary64 x.toModel.unpack = x.toModel.toBits.toBitVec :=
    pack_unpack_of_valid x.toModel.valid
  have canonical : Unpacked.Canonical Format.binary64 x.toModel.unpack :=
    @Unpacked.canonical_unpack Format.binary64 x.toModel.toBits.toBitVec
  show unpack Format.binary64 (pack Format.binary64
    (mul Format.binary64 x.toModel.unpack (1 : Float).toModel.unpack)) = _
  rw [Unpacked.mul_one canonical, packed]
  rfl

end LinOpt
