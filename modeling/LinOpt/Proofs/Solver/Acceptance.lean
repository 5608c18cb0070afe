import LinOpt.Proofs.Scalar.Comparison
import LinOpt.Proofs.Solver.Mirror
import LinOpt.Scalar.Rational

/-!
# Which problems are accepted

A problem that is rejected for its form is rejected for one of three reasons: a list of the wrong
length, bounds that no number lies within, or a right side that is no number once the offsets of
the variables have moved there. The last one needs arithmetic that rounds: over the rational
numbers every normalized problem is in standard form.
-/

namespace LinOpt

variable {α β : Type} [Scalar α] [Endpoint β α]

/-- No number lies within: an end is none itself, the interval is beyond an infinity, or its ends
are in the wrong order. -/
def Bounds.Unsupported (noEndpoint : β → Prop) (bounds : Bounds β) : Prop :=
  noEndpoint bounds.lower ∨ noEndpoint bounds.upper ∨ bounds.lower = Endpoint.posInf ∨
    bounds.upper = Endpoint.negInf ∨ bounds.upper < bounds.lower

/-- What the rejection of a problem needs to know about numbers: what the comparison with itself
finds, that the negation of a negative number is not negative, and that zero and infinity are the
ends of the standard bounds. -/
structure ComparesForm (noNumber : α → Prop) (noEndpoint : β → Prop) : Prop where
  malformed : ∀ bounds : Bounds β, bounds.isMalformed = true ↔ bounds.Unsupported noEndpoint
  turned : ∀ x : α, x < 0 → ¬ -x < 0
  nonneg : ∀ x : α, 0 ≤ x ↔ ¬ x < 0 ∧ ¬ noNumber x
  nonNegative : (Bounds.nonNegative : Bounds β).isNonNegative = true

namespace Solver

variable {noNumber : α → Prop} {noEndpoint : β → Prop}

/-- When a problem is rejected for its form, and what its standard form looks like otherwise. The
two predicates say which scalars and which endpoints are no numbers. -/
structure FormErrors (noNumber : α → Prop) (noEndpoint : β → Prop) (solver : Solver α)
    (problem : Problem α β) : Prop where
  invalid : ∀ error,
    problem.normalize.result = .error (.problem error) ↔ problem.validate = .error error
  malformed : ∀ name bounds,
    problem.normalize.result = .error (.malformedBounds name bounds) ↔
      problem.validate = .ok () ∧ problem.FirstWith (Bounds.Unsupported noEndpoint) name bounds
  normalizes : (∃ form, problem.normalize.result = .ok form) ↔
    problem.validate = .ok () ∧ ∀ bounds ∈ problem.bounds, ¬ bounds.Unsupported noEndpoint
  equations : ∀ form, problem.normalize.result = .ok form → form.problem.EquationForm ∧
    (∀ c ∈ form.problem.constraints, ¬ c.rhs < 0) ∧
    (form.problem.isStandardForm = true ↔ ∀ c ∈ form.problem.constraints, ¬ noNumber c.rhs)
  neverInvalid : ∀ error, (solver.solve problem).result ≠ .error (.problem error)
  normalize : ∀ error, (solver.solve problem).result = .error (.normalize error) ↔
    problem.normalize.result = .error error
  notStandardForm : (solver.solve problem).result = .error .notStandardForm ↔
    ∃ form, problem.normalize.result = .ok form ∧
      ∃ c ∈ form.problem.constraints, noNumber c.rhs

/-- Equations with right sides that are no numbers, and nothing else, are no standard form. -/
theorem isStandardForm_normalized (compares : ComparesForm noNumber noEndpoint)
    {problem : Problem α β} {form : StandardForm α β}
    (returned : problem.normalize.result = .ok form) :
    form.problem.EquationForm ∧ (∀ c ∈ form.problem.constraints, ¬ c.rhs < 0) ∧
      (form.problem.isStandardForm = true ↔
        ∀ c ∈ form.problem.constraints, ¬ noNumber c.rhs) := by
  obtain ⟨eliminations, rfl⟩ := Problem.normalize_ofEliminations returned
  have equations := StandardForm.equationForm_ofEliminations problem eliminations
  have notNegative : ∀ c ∈ (StandardForm.ofEliminations problem eliminations).problem.constraints,
      ¬ c.rhs < 0 := StandardForm.rhs_ofEliminations compares.turned
  refine ⟨equations, notNegative, ?_⟩
  rw [equations.isStandardForm_iff compares.nonNegative]
  apply forall₂_congr
  intro c member
  rw [compares.nonneg]
  exact and_iff_right (notNegative c member)

theorem solveStandard_equations {problem : Problem α β} (equations : problem.EquationForm)
    (solver : Solver α) :
    (∀ error, (solver.solveStandard problem).result ≠ .error (.problem error)) ∧
      (∀ error, (solver.solveStandard problem).result ≠ .error (.normalize error)) ∧
      ((solver.solveStandard problem).result = .error .notStandardForm ↔
        ¬ problem.isStandardForm = true) := by
  have valid := Problem.validate_eq_ok_iff.mpr equations.rectangular
  simp only [solveStandard, Logged.result_bind, Logged.result_ofExcept, valid, Except.mapError,
    Except.bind]
  split
  next standard =>
    -- From here on only the phases can fail, and they fail with reasons of their own.
    rw [Logged.result_mapError]
    cases (solver.solvePhases problem).result <;> simp [Except.mapError, standard]
  next other => simp [other]

/-- Behind a normalized problem a solve fails as its standard form does. -/
theorem solve_eq_error_iff {solver : Solver α} {problem : Problem α β} {form : StandardForm α β}
    (normalized : problem.normalize.result = .ok form) {error : SolveError β} :
    (solver.solve problem).result = .error error ↔
      (solver.solveStandard form.problem).result = .error error := by
  rw [result_solve, normalized]
  show Except.map _ _ = _ ↔ _
  cases (solver.solveStandard form.problem).result <;> simp [Except.map]

theorem solve_eq_error_normalize {solver : Solver α} {problem : Problem α β}
    {reason : NormalizeError β} (failed : problem.normalize.result = .error reason) :
    (solver.solve problem).result = .error (.normalize reason) := by
  rw [result_solve, failed]
  rfl

theorem formErrors (compares : ComparesForm noNumber noEndpoint) (solver : Solver α)
    (problem : Problem α β) : FormErrors noNumber noEndpoint solver problem := by
  have malformed : (fun bounds : Bounds β => bounds.isMalformed = true) =
      Bounds.Unsupported noEndpoint := funext fun bounds => propext (compares.malformed bounds)
  constructor
  case invalid => exact fun error => Problem.normalize_problem_iff
  case malformed =>
    intro name bounds
    rw [Problem.normalize_malformedBounds_iff, malformed]
  case normalizes => simp only [Problem.exists_normalize_iff, compares.malformed]
  case equations => exact fun form returned => isStandardForm_normalized compares returned
  all_goals
    cases normalized : problem.normalize.result with
    | error reason => simp [solve_eq_error_normalize normalized]
    | ok form =>
      have ⟨equations, _, standard⟩ := isStandardForm_normalized compares normalized
      have ⟨notInvalid, notMalformed, rejected⟩ := solveStandard_equations equations solver
      simp [solve_eq_error_iff normalized, notInvalid, notMalformed, rejected, standard]

/-- Over floating-point numbers a problem without a standard form is rejected while it is
normalized, and a normalized problem only for a right side that is NaN. Over the rational numbers
every normalized problem is in standard form. -/
theorem solve_form_errors :
    (∀ (solver : Solver Float) (problem : Problem Float Float),
      FormErrors (·.isNaN = true) (·.isNaN = true) solver problem) ∧
    ∀ (solver : Solver Rat) (problem : Problem Rat ExtendedRat),
      FormErrors (fun _ => False) (fun _ => False) solver problem := by
  refine ⟨formErrors ?_, formErrors ?_⟩
  · constructor
    case malformed =>
      intro bounds
      have lower := float_beq_iff_eq (y := Endpoint.posInf) (by decide) bounds.lower
      have upper := float_beq_iff_eq (y := Endpoint.negInf) (by decide) bounds.upper
      simp only [Bounds.isMalformed, Bool.or_eq_true, endpoint_isNaN, decide_eq_true_eq, or_assoc]
      exact or_congr_right (or_congr_right (or_congr lower (or_congr_left upper)))
    case turned => exact float_neg_not_neg
    case nonneg => exact float_nonneg_iff
    case nonNegative => decide
  · constructor
    case malformed =>
      intro bounds
      simp [Bounds.isMalformed, Bounds.Unsupported, Endpoint.isNaN, or_assoc]
    case turned => exact fun x negative => by simpa using negative.le
    case nonneg => exact fun x => by simp
    case nonNegative => decide

end Solver

end LinOpt
