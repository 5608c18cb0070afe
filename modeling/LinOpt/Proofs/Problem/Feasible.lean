import Mathlib.Algebra.Order.Ring.Unbundled.Rat
import LinOpt.Problem
import LinOpt.Scalar.Rational

/-!
# Feasible points

What the rows and bounds of a linear program say about the values of its variables, and when a
problem passes the two checks that precede a solve.
-/

namespace LinOpt

/-- The comparison that a row states. -/
def Sense.Holds : Sense → Rat → Rat → Prop
  | .le, left, right => left ≤ right
  | .eq, left, right => left = right
  | .ge, left, right => right ≤ left

namespace ExtendedRat

/-- The number is not below the endpoint. -/
def BoundsBelow : ExtendedRat → Rat → Prop
  | .negInf, _ => True
  | .finite bound, x => bound ≤ x
  | .posInf, _ => False

/-- The number is not above the endpoint. -/
def BoundsAbove : ExtendedRat → Rat → Prop
  | .negInf, _ => False
  | .finite bound, x => x ≤ bound
  | .posInf, _ => True

end ExtendedRat

def Bounds.Contains (bounds : Bounds ExtendedRat) (x : Rat) : Prop :=
  bounds.lower.BoundsBelow x ∧ bounds.upper.BoundsAbove x

def Constraint.Holds (constraint : Constraint Rat) (x : List Rat) : Prop :=
  constraint.sense.Holds (Scalar.dot constraint.coefficients x) constraint.rhs

/-- The objective value `x` is at least as good as `y`. -/
def Goal.NoWorse : Goal → (x y : Rat) → Prop
  | .minimize, x, y => x ≤ y
  | .maximize, x, y => y ≤ x

/-- The objective value `x` is better than `y`. -/
def Goal.Better : Goal → (x y : Rat) → Prop
  | .minimize, x, y => x < y
  | .maximize, x, y => y < x

namespace Problem

/-- The objective at a point, in the problem's own sense. -/
def objectiveAt (problem : Problem Rat ExtendedRat) (x : List Rat) : Rat :=
  Scalar.dot problem.objective.coefficients x

/-- One value for each variable, within its bounds, such that all rows hold. -/
structure Feasible (problem : Problem Rat ExtendedRat) (x : List Rat) : Prop where
  rows : ∀ constraint ∈ problem.constraints, constraint.Holds x
  bounds : List.Forall₂ Bounds.Contains problem.bounds x

/-- A solution of the rows as equations in non-negative numbers. -/
structure NonNegativeSolution (problem : Problem Rat ExtendedRat) (x : List Rat) : Prop where
  length : x.length = problem.numVariables
  nonneg : ∀ value ∈ x, 0 ≤ value
  solves : ∀ constraint ∈ problem.constraints,
    Scalar.dot constraint.coefficients x = constraint.rhs

variable {α β : Type}

/-- One entry for each variable in every list of the problem. -/
structure Rectangular (problem : Problem α β) : Prop where
  costs : problem.objective.coefficients.length = problem.numVariables
  bounds : problem.bounds.length = problem.numVariables
  rows : ∀ constraint ∈ problem.constraints,
    constraint.coefficients.length = problem.numVariables

theorem validate_eq_ok_iff {problem : Problem α β} :
    problem.validate = .ok () ↔ problem.Rectangular := by
  unfold validate
  dsimp only
  constructor
  · intro valid
    split at valid
    · cases valid
    next costs =>
      split at valid
      · cases valid
      next bounds =>
        split at valid
        · cases valid
        next none =>
          refine ⟨not_not.mp costs, not_not.mp bounds, fun constraint member => ?_⟩
          simpa using List.find?_eq_none.mp none constraint member
  · intro rectangular
    have none : problem.constraints.find?
        (·.coefficients.length != problem.numVariables) = none :=
      List.find?_eq_none.mpr fun constraint member => by
        simpa using rectangular.rows constraint member
    rw [if_neg (not_not.mpr rectangular.costs), if_neg (not_not.mpr rectangular.bounds), none]

variable [Scalar α] [Endpoint β α]

theorem isStandardForm_iff {problem : Problem α β} :
    problem.isStandardForm = true ↔ problem.objective.goal = .minimize ∧
      (∀ constraint ∈ problem.constraints, constraint.sense = .eq ∧ 0 ≤ constraint.rhs) ∧
      ∀ bounds ∈ problem.bounds, bounds.isNonNegative = true := by
  simp only [isStandardForm, Bool.and_eq_true, beq_iff_eq, List.all_eq_true, decide_eq_true_eq,
    and_assoc]

end Problem

end LinOpt
