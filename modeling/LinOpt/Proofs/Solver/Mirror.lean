import LinOpt.Proofs.Scalar.Negation
import LinOpt.Proofs.StandardForm.Shape
import LinOpt.Solver

/-!
# Maximizing and minimizing

Maximizing an objective is minimizing its negation. Both problems have the same standard form, so
one computation answers both, and only the way back distinguishes them: the objective of a point is
computed with the given costs, and the objectives of an infeasible and of an unbounded problem are
infinities that depend on the goal. All of this holds whatever the numbers are, up to the fact that
negated costs give negated objectives. For floating-point numbers this is true up to the sign of
zero.
-/

namespace LinOpt

variable {α β : Type} [Scalar α] [Endpoint β α]

/-! ### One standard form for both problems -/

/-- What remembers the given objective in a standard form is replaced. -/
def StandardForm.minimizing (form : StandardForm α β) (costs : List α) : StandardForm α β :=
  { form with negated := false, givenCosts := costs }

omit [Endpoint β α] in
theorem Problem.validate_negated (problem : Problem α β) (costs : List α) :
    (problem.setObjective (costs.map (- ·)) .minimize).validate =
      (problem.setObjective costs .maximize).validate := by
  simp only [validate, setObjective, numVariables, List.length_map]
  rfl

theorem StandardForm.ofEliminations_negated (problem : Problem α β) (costs : List α)
    (eliminations : List (Elimination α)) :
    ofEliminations (problem.setObjective (costs.map (- ·)) .minimize) eliminations =
      (ofEliminations (problem.setObjective costs .maximize) eliminations).minimizing
        (costs.map (- ·)) := rfl

theorem Problem.normalize_negated (problem : Problem α β) (costs : List α) :
    (problem.setObjective (costs.map (- ·)) .minimize).normalize.result =
      (problem.setObjective costs .maximize).normalize.result.map
        (·.minimizing (costs.map (- ·))) := by
  -- Neither the lengths nor the bounds depend on the goal, so both problems fail at the same place.
  rw [result_normalize, result_normalize, validate_negated]
  cases (problem.setObjective costs .maximize).validate with
  | error reason => rfl
  | ok _ =>
    show Except.map _ (StandardForm.eliminations (problem.setObjective costs .maximize)) =
      Except.map _ (Except.map _
        (StandardForm.eliminations (problem.setObjective costs .maximize)))
    cases StandardForm.eliminations (problem.setObjective costs .maximize) with
    | error reason => rfl
    | ok eliminations =>
      exact congrArg Except.ok (StandardForm.ofEliminations_negated problem costs eliminations)

theorem Problem.normalize_givenCosts {problem : Problem α β} {form : StandardForm α β}
    (returned : problem.normalize.result = .ok form) :
    form.givenCosts = problem.objective.coefficients := by
  rw [result_normalize] at returned
  cases valid : problem.validate with
  | error reason =>
    rw [valid] at returned
    cases returned
  | ok _ =>
    cases eliminated : StandardForm.eliminations problem with
    | error reason =>
      rw [valid, eliminated] at returned
      cases returned
    | ok eliminations =>
      rw [valid, eliminated] at returned
      cases returned
      rfl

/-! ### The way back -/

/-- Two answers that differ in the objective alone, whose values are related. -/
structure Solution.Mirrors (opposite : β → β → Prop) (maximal minimal : Solution β α) : Prop where
  status : minimal.status = maximal.status
  values : minimal.values = maximal.values
  objectiveValue : opposite maximal.objectiveValue minimal.objectiveValue
  basicVariables : minimal.basicVariables = maximal.basicVariables
  iterations : minimal.iterations = maximal.iterations

/-- The same error, or two answers of which one mirrors the other. -/
inductive Mirrored (opposite : β → β → Prop) :
    Except (SolveError β) (Solution β α) → Except (SolveError β) (Solution β α) → Prop
  | error (reason : SolveError β) : Mirrored opposite (.error reason) (.error reason)
  | ok {maximal minimal : Solution β α} (mirrors : maximal.Mirrors opposite minimal) :
    Mirrored opposite (.ok maximal) (.ok minimal)

namespace Solver

variable {opposite : β → β → Prop}

theorem ofOutcome_mirrors
    (infinite : ∀ negative, opposite (Endpoint.infinity negative) (Endpoint.infinity !negative))
    {costs : List α} {form : StandardForm α β}
    (finite : ∀ values, opposite (Endpoint.ofScalar (form.givenObjective values))
      (Endpoint.ofScalar (Scalar.dot costs values)))
    (outcome : Outcome α) :
    (Solution.ofOutcome form .maximize outcome).Mirrors opposite
      (Solution.ofOutcome (form.minimizing costs) .minimize outcome) := by
  cases outcome with
  | optimal basic => exact ⟨rfl, rfl, finite _, rfl, rfl⟩
  | infeasible => exact ⟨rfl, rfl, infinite true, rfl, rfl⟩
  | unbounded ray => exact ⟨rfl, rfl, infinite false, rfl, rfl⟩

theorem result_solve (solver : Solver α) (problem : Problem α β) :
    (solver.solve problem).result =
      (problem.normalize.result.mapError .normalize).bind fun form =>
        (solver.solveStandard form.problem).result.map
          (.ofOutcome form problem.objective.goal) := by
  simp only [solve, Logged.result_bind, Logged.result_mapError]
  rfl

/-- Maximizing is minimizing the negated costs, as far as negated costs give opposite values and the
two infinities are opposite. -/
theorem solve_mirrored (solver : Solver α) (problem : Problem α β) (costs : List α)
    (infinite : ∀ negative, opposite (Endpoint.infinity negative) (Endpoint.infinity !negative))
    (finite : ∀ values, opposite (Endpoint.ofScalar (Scalar.dot costs values))
      (Endpoint.ofScalar (Scalar.dot (costs.map (- ·)) values))) :
    Mirrored opposite (solver.solve (problem.setObjective costs .maximize)).result
      (solver.solve (problem.setObjective (costs.map (- ·)) .minimize)).result := by
  rw [result_solve, result_solve, problem.normalize_negated]
  cases normalized : (problem.setObjective costs .maximize).normalize.result with
  | error reason => exact .error _
  | ok form =>
    have given : form.givenCosts = costs := Problem.normalize_givenCosts normalized
    -- Both solves go on with the same problem in standard form.
    show Mirrored opposite
      ((solver.solveStandard form.problem).result.map (.ofOutcome form .maximize))
      ((solver.solveStandard form.problem).result.map
        (.ofOutcome (form.minimizing (costs.map (- ·))) .minimize))
    cases (solver.solveStandard form.problem).result with
    | error reason => exact .error reason
    | ok outcome =>
      refine .ok (ofOutcome_mirrors infinite (fun values => ?_) outcome)
      rw [StandardForm.givenObjective, given]
      exact finite values

/-- Maximizing is minimizing the negated costs: the errors are the same, and so are the status, the
values, the basic variables and the numbers of pivots, bit for bit; the objectives are opposite,
the infinite ones included. -/
theorem maximize_mirrors_minimize (solver : Solver Float) (problem : Problem Float Float)
    (costs : List Float) :
    Mirrored Opposite (solver.solve (problem.setObjective costs .maximize)).result
      (solver.solve (problem.setObjective (costs.map (- ·)) .minimize)).result := by
  refine solve_mirrored solver problem costs (fun negative => ?_) (Opposite.dot costs)
  cases negative <;> exact .inl rfl

end Solver

end LinOpt
