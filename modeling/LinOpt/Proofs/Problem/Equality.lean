import LinOpt.Problem
import LinOpt.Proofs.Scalar.Comparison

/-!
# Equal problems

Floating-point numbers are equal when they compare so, and then a zero may change its sign. Problems
are equal when they have the same names and senses and equal numbers, and a problem without NaN
equals itself.
-/

namespace LinOpt

theorem beq_of_forall₂ {γ : Type} [BEq γ] {xs ys : List γ}
    (same : List.Forall₂ (fun x y => (x == y) = true) xs ys) : (xs == ys) = true := by
  induction same with
  | nil => rfl
  | cons first _ ih => rw [List.cons_beq_cons, first, ih, Bool.and_self]

theorem beq_self_of_numbers {xs : List Float} (number : ∀ x ∈ xs, x.isNaN = false) :
    (xs == xs) = true :=
  beq_of_forall₂ (List.forall₂_same.mpr fun x member => float_beq_self (number x member))

theorem objective_beq {left right : Objective Float}
    (coefficients : (left.coefficients == right.coefficients) = true)
    (goal : left.goal = right.goal) : (left == right) = true := by
  apply Bool.and_eq_true_iff.mpr
  rw [goal]
  exact ⟨coefficients, beq_self_eq_true _⟩

theorem constraint_beq {left right : Constraint Float} (name : left.name = right.name)
    (coefficients : (left.coefficients == right.coefficients) = true)
    (sense : left.sense = right.sense) (rhs : (left.rhs == right.rhs) = true) :
    (left == right) = true := by
  show (left.name == right.name && (left.coefficients == right.coefficients &&
    (left.sense == right.sense && left.rhs == right.rhs))) = true
  simp [name, coefficients, sense, rhs]

theorem bounds_beq {left right : Bounds Float} (lower : (left.lower == right.lower) = true)
    (upper : (left.upper == right.upper) = true) : (left == right) = true :=
  Bool.and_eq_true_iff.mpr ⟨lower, upper⟩

theorem problem_beq {left right : Problem Float Float} (names : left.names = right.names)
    (objective : (left.objective == right.objective) = true)
    (constraints : (left.constraints == right.constraints) = true)
    (bounds : (left.bounds == right.bounds) = true) : (left == right) = true := by
  show (left.names == right.names && (left.objective == right.objective &&
    (left.constraints == right.constraints && left.bounds == right.bounds))) = true
  simp [names, objective, constraints, bounds]

end LinOpt
