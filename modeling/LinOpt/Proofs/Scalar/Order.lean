import Mathlib.Algebra.Order.Field.Rat
import LinOpt.Scalar.Rational

/-!
# The order of scalars

Choices among numbers need a total order, from which NaN alone may be left out, and no law of their
arithmetic. The rational numbers have such an order.
-/

namespace LinOpt

namespace Scalar

/-- The comparisons are those of a total order on everything but NaN. -/
structure OrderLaws (α : Type) [Scalar α] : Prop where
  le_trans {x y z : α} : x ≤ y → y ≤ z → x ≤ z
  le_total {x y : α} : isNaN x = false → isNaN y = false → x ≤ y ∨ y ≤ x
  lt_iff {x y : α} : x < y ↔ x ≤ y ∧ ¬ y ≤ x
  beq_iff {x y : α} : (x == y) = true ↔ x ≤ y ∧ y ≤ x

namespace OrderLaws

variable {α : Type} [Scalar α] (laws : OrderLaws α) {x y z : α}

include laws

theorem le_refl (number : isNaN x = false) : x ≤ x :=
  (laws.le_total number number).elim id id

theorem not_le (left : isNaN x = false) (right : isNaN y = false) : ¬ x ≤ y ↔ y < x := by
  rw [laws.lt_iff]
  constructor
  · intro notLe
    exact ⟨(laws.le_total left right).resolve_left notLe, notLe⟩
  · exact And.right

theorem le_of_not_lt (left : isNaN x = false) (right : isNaN y = false) (notLess : ¬ y < x) :
    x ≤ y :=
  Classical.not_not.mp fun notLe => notLess ((laws.not_le left right).mp notLe)

theorem lt_of_le_of_lt (le : x ≤ y) (less : y < z) : x < z := by
  obtain ⟨le', notLe⟩ := laws.lt_iff.mp less
  exact laws.lt_iff.mpr ⟨laws.le_trans le le', fun back => notLe (laws.le_trans back le)⟩

end OrderLaws

end Scalar

theorem isNaN_rat (x : Rat) : Scalar.isNaN x = false := by
  show (!(x == x)) = false
  rw [beq_self_eq_true, Bool.not_true]

theorem rat_orderLaws : Scalar.OrderLaws Rat where
  le_trans := le_trans
  le_total _ _ := le_total _ _
  lt_iff := lt_iff_le_not_ge
  beq_iff := beq_iff_eq.trans le_antisymm_iff

end LinOpt
