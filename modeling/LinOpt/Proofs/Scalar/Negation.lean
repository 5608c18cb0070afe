import Mathlib
import LinOpt.Scalar.Float

/-!
# Negation of floating-point numbers

Rounding to nearest does not see the sign: the product of a negated factor is the negated product,
bit for bit. A sum of negated numbers is the negated sum, except that a sum which cancels is the
positive zero on both sides. Numbers are therefore compared up to their sign and up to the sign of
zero, and this comparison passes through sums of products.

The operations are defined on unpacked numbers, where the sign is a field of its own, so the facts
are proved there and then carried through packing. What the libraries prove about packing is
reached by the import of all of Mathlib only.
-/

namespace LinOpt

open Float.Model (Format UnpackedFloat)
open Float.Model.UnpackedFloat

/-! ### Unpacked numbers -/

namespace Unpacked

theorem apply_neg (s : Sign) (n : Int) : (-s).apply n = -s.apply n := by
  cases s with
  | negative => exact (Int.neg_neg n).symm
  | positive => rfl

theorem sign_neg_neg (s : Sign) : - -s = s := by
  cases s <;> rfl

theorem sign_neg_mul (s t : Sign) : -s * t = -(s * t) := by
  cases s <;> cases t <;> rfl

variable {spec : Format}

/-- The sign bit is packed beside the other bits. -/
theorem unpack_packComponents_neg (s : Sign) (e : BitVec spec.exponentBits)
    (m : BitVec spec.mantissaBitsWithoutImplicit) :
    unpack spec (packComponents spec (-s) e m) = neg (unpack spec (packComponents spec s e m)) := by
  simp only [unpack, unpackMantissa_packComponents, unpackExponent_packComponents,
    unpackSign_packComponents, Sign.ofBitVec_toBitVec]
  split_ifs <;> rfl

theorem unpack_pack_neg (u : UnpackedFloat) :
    unpack spec (pack spec (neg u)) = neg (unpack spec (pack spec u)) := by
  cases u with
  | notANumber =>
    show unpack spec (packedNaN spec) = neg (unpack spec (packedNaN spec))
    rw [unpack_packedNaN]
    rfl
  | infinity s => exact unpack_packComponents_neg s _ _
  | zero s => exact unpack_packComponents_neg s _ _
  | finite s m e positive =>
    -- Whether the number overflows, and whether it is normal, depends on its magnitude alone.
    simp only [neg, pack, packedInfinity]
    split_ifs <;> exact unpack_packComponents_neg s _ _

/-- The sign plays no part in rounding. -/
theorem roundWithAccuracy_neg (s : Sign) (m : Nat) (e : Int) (accuracy : Accuracy) :
    roundWithAccuracy spec (-s) m e accuracy = neg (roundWithAccuracy spec s m e accuracy) := by
  unfold roundWithAccuracy
  dsimp only
  split_ifs <;> rfl

theorem round_neg (s : Sign) (m : Nat) (e : Int) :
    round spec (-s) m e = neg (round spec s m e) :=
  roundWithAccuracy_neg ..

theorem mul_neg_left (u v : UnpackedFloat) : mul spec (neg u) v = neg (mul spec u v) := by
  cases u <;> cases v <;> simp only [neg, mul, sign_neg_mul, roundWithAccuracy_neg]

/-- Equal up to the sign, and up to the sign of zero. -/
inductive Opposite : UnpackedFloat → UnpackedFloat → Prop
  | negated (u : UnpackedFloat) : Opposite u (neg u)
  | zeros (s t : Sign) : Opposite (.zero s) (.zero t)

namespace Opposite

theorem normalize_neg (m e : Int) :
    Opposite (Float.Model.UnpackedFloat.normalize spec m e .positive)
      (Float.Model.UnpackedFloat.normalize spec (-m) e .positive) := by
  obtain negative | rfl | positive := Int.lt_trichotomy m 0
  · have before : compare m 0 = .lt := compare_lt_iff_lt.mpr negative
    have after : compare (-m) 0 = .gt := compare_gt_iff_gt.mpr (Int.neg_pos_of_neg negative)
    have turned : round spec .positive (-m).toNat e = neg (round spec .negative (-m).toNat e) :=
      round_neg .negative _ e
    simp only [Float.Model.UnpackedFloat.normalize, before, after, turned]
    exact .negated _
  · -- A sum that cancels is the positive zero, also when all of its terms are negated.
    exact .zeros _ _
  · have before : compare m 0 = .gt := compare_gt_iff_gt.mpr positive
    have after : compare (-m) 0 = .lt := compare_lt_iff_lt.mpr (Int.neg_neg_of_pos positive)
    have turned : round spec .negative m.toNat e = neg (round spec .positive m.toNat e) :=
      round_neg .positive _ e
    simp only [Float.Model.UnpackedFloat.normalize, before, after, Int.neg_neg, turned]
    exact .negated _

/-- A zero leaves what it is added to. -/
theorem zero_add (s t : Sign) (u : UnpackedFloat) :
    Opposite (add spec (.zero s) u) (add spec (.zero t) (neg u)) := by
  cases u with
  | zero r =>
    show Opposite (if s == r then .zero s else .zero .positive)
      (if t == -r then .zero t else .zero .positive)
    split_ifs <;> exact .zeros _ _
  | _ => exact .negated _

theorem add_zero (s t : Sign) (u : UnpackedFloat) :
    Opposite (add spec u (.zero s)) (add spec (neg u) (.zero t)) := by
  cases u with
  | zero r =>
    show Opposite (if r == s then .zero r else .zero .positive)
      (if -r == t then .zero (-r) else .zero .positive)
    split_ifs <;> exact .zeros _ _
  | _ => exact .negated _

theorem neg_add_neg (u v : UnpackedFloat) :
    Opposite (add spec u v) (add spec (neg u) (neg v)) := by
  cases u with
  | zero s => exact zero_add s (-s) v
  | notANumber => exact .negated .notANumber
  | infinity s =>
    cases v with
    | infinity t =>
      -- Infinities of different signs have no sum, whichever of them is the negative one.
      cases s <;> cases t <;> exact .negated _
    | _ => exact .negated _
  | finite s m e _ =>
    cases v with
    | zero t => exact add_zero t (-t) _
    | finite t n f _ =>
      -- The aligned mantissas are added as integers, and the sum of their negations is negated.
      simp only [add, neg, apply_neg, ← Int.neg_add]
      exact normalize_neg _ _
    | _ => exact .negated _

/-- Sums of opposite numbers are opposite. -/
theorem add {u u' v v' : UnpackedFloat} (left : Opposite u u') (right : Opposite v v') :
    Opposite (add spec u v) (add spec u' v') := by
  cases left with
  | negated =>
    cases right with
    | negated => exact neg_add_neg u v
    | zeros s t => exact add_zero s t u
  | zeros s t =>
    cases right with
    | negated => exact zero_add s t v
    | zeros r q =>
      show Opposite (if s == r then .zero s else .zero .positive)
        (if t == q then .zero t else .zero .positive)
      split_ifs <;> exact .zeros _ _

theorem pack {u v : UnpackedFloat} (opposite : Opposite u v) :
    Opposite (unpack spec (pack spec u)) (unpack spec (pack spec v)) := by
  cases opposite with
  | negated => exact unpack_pack_neg u ▸ .negated _
  | zeros s t =>
    show Opposite (unpack spec (packedZero spec s)) (unpack spec (packedZero spec t))
    rw [unpack_packedZero, unpack_packedZero]
    exact .zeros s t

end Opposite

end Unpacked

/-! ### Packed numbers -/

theorem float_ext {x y : Float} (same : x.toModel.unpack = y.toModel.unpack) : x = y := by
  apply Float.toBits_inj.mp
  apply UInt64.toBitVec_inj.mp
  exact (unpack_inj_of_valid x.toModel.valid y.toModel.valid).mp same

theorem float_unpack_neg (x : Float) : (-x).toModel.unpack = neg x.toModel.unpack := by
  -- Packing again what was packed already changes nothing.
  have packed : pack Format.binary64 x.toModel.unpack = x.toModel.toBits.toBitVec :=
    pack_unpack_of_valid x.toModel.valid
  show unpack Format.binary64 (pack Format.binary64 (neg x.toModel.unpack)) = _
  rw [Unpacked.unpack_pack_neg, packed]
  rfl

theorem float_neg_neg (x : Float) : - -x = x := by
  apply float_ext
  rw [float_unpack_neg, float_unpack_neg]
  cases x.toModel.unpack <;> simp only [neg, Unpacked.sign_neg_neg]

theorem float_neg_mul (x y : Float) : -x * y = -(x * y) := by
  apply float_ext
  rw [float_unpack_neg]
  show unpack Format.binary64 (pack Format.binary64
    (mul Format.binary64 (-x).toModel.unpack y.toModel.unpack)) = _
  rw [float_unpack_neg, Unpacked.mul_neg_left, Unpacked.unpack_pack_neg]
  rfl

/-- Both zeros equal zero, and nothing else does. -/
theorem float_beq_zero (x : Float) : (x == 0) = true ↔ ∃ s, x.toModel.unpack = .zero s := by
  have zero : (0 : Float).toModel.unpack = .zero .positive := rfl
  show x.toModel.unpack.beq (0 : Float).toModel.unpack = true ↔ _
  rw [zero, beq_iff_ne_notANumber_and_eq]
  constructor
  · rintro ⟨_, _, same | ⟨same, _⟩ | ⟨same, _⟩⟩ <;> exact ⟨_, same⟩
  · rintro ⟨s, same⟩
    cases s <;> simp [same]

/-- The second number is the first one with its sign turned, but a zero may have either sign. -/
def Opposite (x y : Float) : Prop :=
  y = -x ∨ (x == 0) = true ∧ (y == 0) = true

theorem opposite_iff (x y : Float) :
    Opposite x y ↔ Unpacked.Opposite x.toModel.unpack y.toModel.unpack := by
  constructor
  · rintro (rfl | ⟨left, right⟩)
    · rw [float_unpack_neg]
      exact .negated _
    · obtain ⟨s, left⟩ := (float_beq_zero x).mp left
      obtain ⟨t, right⟩ := (float_beq_zero y).mp right
      rw [left, right]
      exact .zeros s t
  · intro opposite
    generalize here : x.toModel.unpack = u, there : y.toModel.unpack = v at opposite
    cases opposite with
    | negated =>
      left
      apply float_ext
      rw [float_unpack_neg, here, there]
    | zeros s t =>
      right
      exact ⟨(float_beq_zero x).mpr ⟨s, here⟩, (float_beq_zero y).mpr ⟨t, there⟩⟩

namespace Opposite

theorem add {x x' y y' : Float} (left : Opposite x x') (right : Opposite y y') :
    Opposite (x + y) (x' + y') := by
  rw [opposite_iff] at left right ⊢
  exact (left.add right).pack

theorem foldl_products (costs values : List Float) {start start' : Float}
    (opposite : Opposite start start') :
    Opposite ((List.zipWith (· * ·) costs values).foldl (· + ·) start)
      ((List.zipWith (· * ·) (costs.map (- ·)) values).foldl (· + ·) start') := by
  induction costs generalizing values start start' with
  | nil => exact opposite
  | cons cost costs ih =>
    cases values with
    | nil => exact opposite
    | cons value values => exact ih values (opposite.add (.inl (float_neg_mul cost value)))

/-- Negated costs have the opposite value. -/
theorem dot (costs values : List Float) :
    Opposite (Scalar.dot costs values) (Scalar.dot (costs.map (- ·)) values) :=
  foldl_products costs values (.inr ⟨by decide, by decide⟩)

/-- A sum that cancels is the positive zero, whichever sign the costs have. -/
example : (Scalar.dot [1, -1] [1, 1] : Float).toBits = 0 ∧
    (Scalar.dot [-1, 1] [1, 1] : Float).toBits = 0 := by decide

end Opposite

end LinOpt
