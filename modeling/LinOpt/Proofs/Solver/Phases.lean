import LinOpt.Proofs.Problem.Feasible
import LinOpt.Proofs.Simplex.PhaseOne
import LinOpt.Solver

/-!
# Both phases in exact arithmetic

The outcomes for a problem in standard form are true over the rational numbers with the tolerance
zero: an optimal outcome is a basic solution with the least objective, an infeasible one leaves no
solution, and an unbounded one comes with solutions.
-/

namespace LinOpt

open Finset Simplex

variable {problem : Problem Rat ExtendedRat}

/-! ### Solutions as points of the program -/

namespace Problem

theorem length_rows_ofProblem {α β : Type} [Scalar α] [Endpoint β α] (problem : Problem α β) :
    (Program.ofProblem problem).rows.length = problem.constraints.length := by
  simp [Program.ofProblem]

theorem length_rhs_ofProblem {α β : Type} [Scalar α] [Endpoint β α] (problem : Problem α β) :
    (Program.ofProblem problem).rhs.length = (Program.ofProblem problem).rows.length := by
  simp [Program.ofProblem, rhs]

theorem Rectangular.numColumns {α β : Type} [Scalar α] [Endpoint β α] {problem : Problem α β}
    (rectangular : problem.Rectangular) :
    (Program.ofProblem problem).numColumns = problem.numVariables :=
  rectangular.costs

theorem Rectangular.leftSide (rectangular : problem.Rectangular) (x : Nat → Rat) {i : Nat}
    (row : i < problem.constraints.length) :
    (Program.ofProblem problem).leftSide x i = Scalar.dot problem.constraints[i].coefficients
      ((List.range problem.numVariables).map x) := by
  have wide := rectangular.rows _ (List.getElem_mem row)
  rw [Scalar.dot_eq_sum wide.le, Program.leftSide, rectangular.numColumns]
  refine sum_congr rfl fun j column => ?_
  have small := mem_range.mp column
  simp [Program.coefficient, Program.ofProblem, Dense.entry, List.getD, row, small]

theorem Rectangular.objective (rectangular : problem.Rectangular) (x : Nat → Rat) :
    (Program.ofProblem problem).objective x =
      problem.objectiveAt ((List.range problem.numVariables).map x) := by
  rw [objectiveAt, Scalar.dot_eq_sum rectangular.costs.le, Program.objective,
    rectangular.numColumns]
  refine sum_congr rfl fun j column => ?_
  have small := mem_range.mp column
  simp [Program.cost, Program.ofProblem, List.getD, small]

theorem rightSide_ofProblem {i : Nat} (row : i < problem.constraints.length) :
    (Program.ofProblem problem).rightSide i = problem.constraints[i].rhs := by
  simp [Program.rightSide, Program.ofProblem, rhs, List.getD, row]

/-- A point of the program gives a solution. -/
theorem Rectangular.solution (rectangular : problem.Rectangular) {x : Nat → Rat}
    (feasible : (Program.ofProblem problem).Feasible x) :
    problem.NonNegativeSolution ((List.range problem.numVariables).map x) where
  length := by simp
  nonneg value member := by
    obtain ⟨j, _, rfl⟩ := List.mem_map.mp member
    exact feasible.nonneg j
  solves constraint member := by
    obtain ⟨i, row, rfl⟩ := List.getElem_of_mem member
    rw [← rectangular.leftSide x row, ← rightSide_ofProblem row]
    exact feasible.solves i (by rwa [length_rows_ofProblem])

theorem getD_nonneg {y : List Rat} (nonneg : ∀ value ∈ y, 0 ≤ value) (j : Nat) :
    0 ≤ y.getD j 0 := by
  by_cases small : j < y.length
  · rw [List.getD_eq_getElem _ _ small]
    exact nonneg _ (List.getElem_mem small)
  · rw [List.getD_eq_default _ _ (not_lt.mp small)]

theorem map_getD (y : List Rat) : (List.range y.length).map (y.getD · 0) = y := by
  refine List.ext_getElem (by simp) fun j _ small => ?_
  simp [List.getD, small]

/-- A solution is a point of the program. -/
theorem NonNegativeSolution.feasible {y : List Rat} (solution : problem.NonNegativeSolution y)
    (rectangular : problem.Rectangular) :
    (Program.ofProblem problem).Feasible (y.getD · 0) where
  nonneg := getD_nonneg solution.nonneg
  solves i row := by
    have row : i < problem.constraints.length := by rwa [length_rows_ofProblem] at row
    rw [rectangular.leftSide _ row, rightSide_ofProblem row, ← solution.length, map_getD]
    exact solution.solves _ (List.getElem_mem row)

theorem isStandardForm_rhs (standard : problem.isStandardForm = true) :
    ∀ b ∈ (Program.ofProblem problem).rhs, 0 ≤ b := by
  intro b member
  obtain ⟨constraint, row, rfl⟩ := List.mem_map.mp member
  exact ((isStandardForm_iff.mp standard).2.1 constraint row).2

end Problem

/-! ### What a solve returns -/

namespace Solver

variable {solver : Solver Rat}

/-- A solve that returns has passed both checks, and its outcome is that of phase one or two. -/
theorem solveStandard_ok {α β : Type} [Scalar α] [Endpoint β α] {solver : Solver α}
    {problem : Problem α β} {outcome : Outcome α}
    (returned : (solver.solveStandard problem).result = .ok outcome) :
    problem.Rectangular ∧ problem.isStandardForm = true ∧
      ((outcome = .infeasible ∧
          (phaseOne solver (Program.ofProblem problem)).result = .ok .infeasible) ∨
        (∃ ray, outcome = .unbounded ray ∧
          (phaseOne solver (Program.ofProblem problem)).result = .ok (.unbounded ray)) ∨
        ∃ basis rows iterations,
          (phaseOne solver (Program.ofProblem problem)).result =
            .ok (.feasible basis rows iterations) ∧
          (solver.phaseTwo problem basis rows iterations).result = .ok outcome) := by
  unfold solveStandard at returned
  simp only [Logged.result_bind, Logged.result_ofExcept] at returned
  cases valid : problem.validate with
  | error reason => simp [valid, Except.mapError, Except.bind] at returned
  | ok _ =>
    simp only [valid, Except.mapError, Except.bind] at returned
    split at returned
    next standard =>
      refine ⟨Problem.validate_eq_ok_iff.mp valid, standard, ?_⟩
      simp only [Logged.result_mapError, solvePhases, Logged.result_bind, Logged.result_emit,
        Except.bind] at returned
      cases first : (phaseOne solver (Program.ofProblem problem)).result with
      | error reason => simp [first, Except.mapError] at returned
      | ok last =>
        cases last with
        | infeasible =>
          refine Or.inl ⟨?_, rfl⟩
          simpa [first, Except.mapError] using returned.symm
        | unbounded ray =>
          refine Or.inr (Or.inl ⟨ray, ?_, rfl⟩)
          simpa [first, Except.mapError] using returned.symm
        | feasible basis rows iterations =>
          refine Or.inr (Or.inr ⟨basis, rows, iterations, rfl, ?_⟩)
          simp only [first] at returned
          cases second : (solver.phaseTwo problem basis rows iterations).result with
          | error reason => simp [second, Except.mapError] at returned
          | ok final => simpa [second, Except.mapError] using returned
    · simp at returned

theorem phaseTwo_ok {α β : Type} [Scalar α] [Endpoint β α] {solver : Solver α}
    {problem : Problem α β} {basis rows : List Nat} {iterations : Nat} {outcome : Outcome α}
    (returned : (solver.phaseTwo problem basis rows iterations).result = .ok outcome) :
    ∃ last, (∃ values more,
        (run solver ((Program.ofProblem problem).restrict rows) .two basis).result =
          .ok (.optimal last values more) ∧
        outcome = .optimal
          { basis := last
            values := values
            objectiveValue := problem.objectiveValue last values
            droppedRows := (List.range (Program.ofProblem problem).rows.length).filter
              (!rows.contains ·)
            iterations := ⟨iterations, more⟩ }) ∨
      ∃ entering direction,
        (run solver ((Program.ofProblem problem).restrict rows) .two basis).result =
          .ok (.unbounded last entering direction) ∧
        outcome = .unbounded ⟨.two, entering, last, direction⟩ := by
  unfold phaseTwo at returned
  simp only [Logged.result_bind] at returned
  cases ended : (run solver ((Program.ofProblem problem).restrict rows) .two basis).result with
  | error reason => simp [ended, Except.bind] at returned
  | ok final =>
    cases final with
    | optimal last values more =>
      refine ⟨last, Or.inl ⟨values, more, rfl, ?_⟩⟩
      simpa [ended, Except.bind] using returned.symm
    | unbounded last entering direction =>
      refine ⟨last, Or.inr ⟨entering, direction, rfl, ?_⟩⟩
      simpa [ended, Except.bind] using returned.symm

/-- An optimal outcome is what the run of phase two returns, from the basis that phase one finds and
on the rows that it keeps. -/
theorem solveStandard_optimal {α β : Type} [Scalar α] [Endpoint β α] {solver : Solver α}
    {problem : Problem α β} {solution : BasicSolution α}
    (returned : (solver.solveStandard problem).result = .ok (.optimal solution)) :
    problem.Rectangular ∧ problem.isStandardForm = true ∧ ∃ start rows iterations,
      (phaseOne solver (Program.ofProblem problem)).result =
        .ok (.feasible start rows iterations) ∧
      (run solver ((Program.ofProblem problem).restrict rows) .two start).result =
        .ok (.optimal solution.basis solution.values solution.iterations.phaseTwo) ∧
      solution.objectiveValue = problem.objectiveValue solution.basis solution.values ∧
      solution.droppedRows =
        (List.range problem.numConstraints).filter (!rows.contains ·) := by
  have height : (Program.ofProblem problem).rows.length = problem.numConstraints :=
    Problem.length_rows_ofProblem problem
  obtain ⟨rectangular, standard, ⟨other, _⟩ | ⟨_, other, _⟩ | ⟨start, rows, iterations, first,
    second⟩⟩ := solveStandard_ok returned
  · cases other
  · cases other
  · obtain ⟨last, ⟨values, more, ended, same⟩ | ⟨_, _, _, other⟩⟩ := phaseTwo_ok second
    · cases same
      rw [height]
      exact ⟨rectangular, standard, start, rows, iterations, first, ended, rfl, rfl⟩
    · cases other

/-- A solve that fails after both checks fails in the search for a basis or in the run from it. -/
theorem solveStandard_error {α β : Type} [Scalar α] [Endpoint β α] {solver : Solver α}
    {problem : Problem α β} {reason : Failure}
    (returned : (solver.solveStandard problem).result = .error (.failure reason)) :
    problem.Rectangular ∧ problem.isStandardForm = true ∧
      ((phaseOne solver (Program.ofProblem problem)).result = .error reason ∨
        ∃ basis rows iterations,
          (phaseOne solver (Program.ofProblem problem)).result =
            .ok (.feasible basis rows iterations) ∧
          (run solver ((Program.ofProblem problem).restrict rows) .two basis).result =
            .error reason) := by
  unfold solveStandard at returned
  simp only [Logged.result_bind, Logged.result_ofExcept] at returned
  cases valid : problem.validate with
  | error reason' => simp [valid, Except.mapError, Except.bind] at returned
  | ok _ =>
    simp only [valid, Except.mapError, Except.bind] at returned
    split at returned
    next standard =>
      refine ⟨Problem.validate_eq_ok_iff.mp valid, standard, ?_⟩
      simp only [Logged.result_mapError, solvePhases, Logged.result_bind, Logged.result_emit,
        Except.bind] at returned
      cases first : (phaseOne solver (Program.ofProblem problem)).result with
      | error reason' => exact Or.inl (by simpa [first, Except.mapError] using returned)
      | ok last =>
        cases last with
        | infeasible => simp [first, Except.mapError] at returned
        | unbounded ray => simp [first, Except.mapError] at returned
        | feasible basis rows iterations =>
          refine Or.inr ⟨basis, rows, iterations, rfl, ?_⟩
          simp only [first, phaseTwo, Logged.result_bind] at returned
          cases ended : (run solver ((Program.ofProblem problem).restrict rows) .two
            basis).result with
          | error reason' => simpa [ended, Except.bind, Except.mapError] using returned
          | ok final =>
            cases final <;> simp [ended, Except.bind, Except.mapError] at returned
    · simp at returned

/-- The sum over the basic columns is the whole objective of a point that is zero elsewhere. -/
theorem objectiveValue_basic {basis : List Nat} {x : Nat → Rat} (distinct : basis.Nodup)
    (columns : ∀ j ∈ basis, j < (Program.ofProblem problem).numColumns)
    (support : ∀ j, j ∉ basis → x j = 0) :
    problem.objectiveValue basis ((List.range (Program.ofProblem problem).numColumns).map x) =
      (Program.ofProblem problem).objective x := by
  have basic : basis.toFinset ⊆ range (Program.ofProblem problem).numColumns := fun j member =>
    mem_range.mpr (columns j (List.mem_toFinset.mp member))
  have outside : ∀ j ∈ range (Program.ofProblem problem).numColumns, j ∉ basis.toFinset →
      (Program.ofProblem problem).cost j * x j = 0 := by
    intro j _ fresh
    rw [support j (fun member => fresh (List.mem_toFinset.mpr member)), mul_zero]
  rw [Program.objective, ← sum_subset basic outside, List.sum_toFinset _ distinct,
    Problem.objectiveValue, Scalar.sum_eq]
  congr 1
  refine List.map_congr_left fun j member => ?_
  have small := columns j member
  have value : ((List.range (Program.ofProblem problem).numColumns).map x).getD j 0 = x j := by
    simp [List.getD, small]
  rw [value]
  rfl

/-- Phase two starts from a basic point of rows that imply all others. -/
theorem phaseTwo_start (exact : solver.tolerance = 0) (standard : problem.isStandardForm = true)
    {basis rows : List Nat} {iterations : Nat}
    (returned : (phaseOne solver (Program.ofProblem problem)).result =
      .ok (.feasible basis rows iterations)) :
    (∀ r ∈ rows, r < (Program.ofProblem problem).rows.length) ∧
      (Program.ofProblem problem).Implied rows ∧
      ((Program.ofProblem problem).restrict rows).IsBasis basis ∧
      ∃ x, ((Program.ofProblem problem).restrict rows).BasicPoint basis x := by
  obtain ⟨inside, implied, valid, point⟩ := phaseOne_feasible exact
    (Problem.length_rhs_ofProblem problem) (Problem.isStandardForm_rhs standard) returned
  exact ⟨inside, implied, valid, point⟩

/-- An optimal outcome is a point that is zero outside its basis and has the least objective. -/
theorem optimal_outcome (exact : solver.tolerance = 0) {solution : BasicSolution Rat}
    (returned : (solver.solveStandard problem).result = .ok (.optimal solution)) :
    problem.Rectangular ∧ ∃ x, (Program.ofProblem problem).Feasible x ∧
      (∀ j, j ∉ solution.basis → x j = 0) ∧
      solution.values = (List.range problem.numVariables).map x ∧
      solution.objectiveValue = (Program.ofProblem problem).objective x ∧
      ∀ z, (Program.ofProblem problem).Feasible z →
        (Program.ofProblem problem).objective x ≤ (Program.ofProblem problem).objective z := by
  obtain ⟨rectangular, standard, start, rows, _, first, ended, objective, _⟩ :=
    solveStandard_optimal returned
  obtain ⟨inside, implied, valid, x, point⟩ := phaseTwo_start exact standard first
  -- The optimum on the rows that were kept is one on all rows, which they imply.
  obtain ⟨valid, distinct, x, point, values, least⟩ := run_optimal exact valid point ended
  refine ⟨rectangular, x, implied.feasible point.toFeasible, point.support, ?_, ?_, ?_⟩
  · rw [values, ← rectangular.numColumns]
    rfl
  · rw [objective, values]
    exact objectiveValue_basic distinct valid.columns point.support
  · exact fun z feasible => least z (feasible.restrict inside)

theorem infeasible_outcome (exact : solver.tolerance = 0)
    (returned : (solver.solveStandard problem).result = .ok .infeasible) :
    problem.Rectangular ∧ ∀ z, ¬ (Program.ofProblem problem).Feasible z := by
  obtain ⟨rectangular, standard, result⟩ := solveStandard_ok returned
  refine ⟨rectangular, ?_⟩
  -- Only phase one reports that there is no solution.
  rcases result with ⟨_, first⟩ | ⟨ray, _, first⟩ | ⟨basis, rows, iterations, first, second⟩
  · exact phaseOne_infeasible exact (Problem.length_rhs_ofProblem problem)
      (Problem.isStandardForm_rhs standard) first
  · exact absurd first (phaseOne_bounded exact (Problem.length_rhs_ofProblem problem)
      (Problem.isStandardForm_rhs standard) ray)
  · obtain ⟨last, ⟨_, _, _, other⟩ | ⟨_, _, _, other⟩⟩ := phaseTwo_ok second <;> cases other

/-- An unbounded outcome has a ray in the rows that were kept, which imply all others. -/
theorem unbounded_outcome (exact : solver.tolerance = 0) {ray : UnboundedRay Rat}
    (returned : (solver.solveStandard problem).result = .ok (.unbounded ray)) :
    problem.Rectangular ∧ ray.phase = .two ∧
      ∃ rows, (Program.ofProblem problem).Implied rows ∧
        ((Program.ofProblem problem).restrict rows).IsBasis ray.basis ∧ ray.basis.Nodup ∧
        (∃ x, ((Program.ofProblem problem).restrict rows).BasicPoint ray.basis x) ∧
        ((Program.ofProblem problem).restrict rows).Descends ray.basis ray.entering
          ray.direction ∧
        ∀ entry ∈ ray.direction, entry ≤ 0 := by
  obtain ⟨rectangular, standard, result⟩ := solveStandard_ok returned
  refine ⟨rectangular, ?_⟩
  rcases result with ⟨other, _⟩ | ⟨ray, _, first⟩ | ⟨basis, rows, iterations, first, second⟩
  · cases other
  · exact absurd first (phaseOne_bounded exact (Problem.length_rhs_ofProblem problem)
      (Problem.isStandardForm_rhs standard) ray)
  · obtain ⟨_, implied, valid, x, point⟩ := phaseTwo_start exact standard first
    obtain ⟨last, ⟨_, _, _, other⟩ | ⟨entering, direction, ended, same⟩⟩ := phaseTwo_ok second
    · cases other
    · cases same
      exact ⟨rfl, rows, implied, run_unbounded exact valid point ended⟩

/-! ### The outcomes of a problem in standard form -/

/-- The values of an optimal outcome are a solution with the least objective. -/
theorem optimal_values (exact : solver.tolerance = 0) {solution : BasicSolution Rat}
    (returned : (solver.solveStandard problem).result = .ok (.optimal solution)) :
    problem.NonNegativeSolution solution.values ∧
      solution.objectiveValue = problem.objectiveAt solution.values ∧
      ∀ y, problem.NonNegativeSolution y →
        problem.objectiveAt solution.values ≤ problem.objectiveAt y := by
  obtain ⟨rectangular, x, feasible, _, values, objective, least⟩ := optimal_outcome exact returned
  rw [values, objective, rectangular.objective]
  refine ⟨rectangular.solution feasible, rfl, fun y solution => ?_⟩
  have bound := least _ (solution.feasible rectangular)
  have values := Problem.map_getD y
  rw [solution.length] at values
  rwa [rectangular.objective, rectangular.objective, values] at bound

theorem infeasible_solutions (exact : solver.tolerance = 0)
    (returned : (solver.solveStandard problem).result = .ok .infeasible) :
    ¬ ∃ y, problem.NonNegativeSolution y := by
  rintro ⟨y, solution⟩
  obtain ⟨rectangular, none⟩ := infeasible_outcome exact returned
  exact none _ (solution.feasible rectangular)

/-- With an unbounded outcome the objective has no lower bound on the solutions. -/
theorem unbounded_solutions (exact : solver.tolerance = 0) {ray : UnboundedRay Rat}
    (returned : (solver.solveStandard problem).result = .ok (.unbounded ray)) (bound : Rat) :
    ∃ y, problem.NonNegativeSolution y ∧ problem.objectiveAt y < bound := by
  obtain ⟨rectangular, _, rows, implied, _, distinct, ⟨x, point⟩, descends, falling⟩ :=
    unbounded_outcome exact returned
  obtain ⟨z, feasible, below⟩ := descends.below point.toFeasible distinct falling bound
  refine ⟨_, rectangular.solution (implied.feasible feasible), ?_⟩
  rw [← rectangular.objective]
  exact below

/-- An optimal outcome solves every row, those that were dropped included, is zero outside its
basis, and no solution has a smaller objective. -/
theorem optimal_solution_least (exact : solver.tolerance = 0) {solution : BasicSolution Rat}
    (returned : (solver.solveStandard problem).result = .ok (.optimal solution)) :
    problem.NonNegativeSolution solution.values ∧
      (∀ j, j ∉ solution.basis → solution.values.getD j 0 = 0) ∧
      solution.objectiveValue = problem.objectiveAt solution.values ∧
      ∀ y, problem.NonNegativeSolution y → solution.objectiveValue ≤ problem.objectiveAt y := by
  obtain ⟨solves, objective, least⟩ := optimal_values exact returned
  refine ⟨solves, fun j outside => ?_, objective, fun y other => ?_⟩
  · obtain ⟨_, x, _, support, values, _⟩ := optimal_outcome exact returned
    rw [values]
    by_cases small : j < problem.numVariables
    · simpa [List.getD, small] using support j outside
    · simp [List.getD, small]
  · rw [objective]
    exact least y other

/-- The second row is twice the first. -/
def doubledRow : Problem Rat ExtendedRat where
  names := ["x", "y"]
  objective := ⟨[1, 2], .minimize⟩
  constraints := [⟨"a", [1, 1], .eq, 2⟩, ⟨"b", [2, 2], .eq, 4⟩]
  bounds := [.nonNegative, .nonNegative]

theorem optimal_solution_least_doubledRow :
    (Solver.solveStandard ⟨10, 0, .dantzig⟩ doubledRow).result =
        .ok (.optimal ⟨[0], [2, 0], 2, [1], ⟨1, 0⟩⟩) ∧
      doubledRow.NonNegativeSolution [2, 0] ∧
      (∀ j, j ∉ [0] → [(2 : Rat), 0].getD j 0 = 0) ∧
      2 = doubledRow.objectiveAt [2, 0] ∧
      ∀ y, doubledRow.NonNegativeSolution y → 2 ≤ doubledRow.objectiveAt y := by
  have returned : (Solver.solveStandard ⟨10, 0, .dantzig⟩ doubledRow).result =
      .ok (.optimal ⟨[0], [2, 0], 2, [1], ⟨1, 0⟩⟩) := by with_unfolding_all rfl
  exact ⟨returned, optimal_solution_least rfl returned⟩

/-- An infeasible outcome says exactly that there is no solution. -/
theorem outcome_infeasible_iff (exact : solver.tolerance = 0) {outcome : Outcome Rat}
    (returned : (solver.solveStandard problem).result = .ok outcome) :
    outcome = .infeasible ↔ ¬ ∃ x, problem.NonNegativeSolution x := by
  constructor
  · rintro rfl
    exact infeasible_solutions exact returned
  · intro none
    cases outcome with
    | infeasible => rfl
    | optimal solution => exact absurd ⟨_, (optimal_values exact returned).1⟩ none
    | unbounded ray =>
      obtain ⟨y, solution, _⟩ := unbounded_solutions exact returned 0
      exact absurd ⟨y, solution⟩ none

/-- No number is both one and two. -/
def contradictory : Problem Rat ExtendedRat where
  names := ["x"]
  objective := ⟨[1], .minimize⟩
  constraints := [⟨"a", [1], .eq, 1⟩, ⟨"b", [1], .eq, 2⟩]
  bounds := [.nonNegative]

theorem outcome_infeasible_contradictory :
    (Solver.solveStandard ⟨10, 0, .bland⟩ contradictory).result = .ok .infeasible ∧
      ¬ ∃ x, contradictory.NonNegativeSolution x := by
  have returned : (Solver.solveStandard ⟨10, 0, .bland⟩ contradictory).result =
      .ok .infeasible := by with_unfolding_all rfl
  exact ⟨returned, (outcome_infeasible_iff rfl returned).mp rfl⟩

end Solver

end LinOpt
