import LinOpt.Proofs.Simplex.Values
import LinOpt.Proofs.Solver.Structure

/-!
# Near-optimal outcomes

With a tolerance above zero an optimal outcome need not have the least objective. A run stops when
no column saves more than the tolerance for each unit, so every other solution of the rows that were
kept saves at most the tolerance on each unit of a column outside the basis.
-/

namespace LinOpt

open Finset Matrix

namespace Simplex

namespace Program

/-- What a unit of a column costs beyond the basic columns that it replaces. -/
noncomputable def reducedCost (program : Program Rat) (basis : List Nat) (j : Nat) : Rat :=
  program.cost j - Dense.toVector program.rows.length (basis.map program.cost) ⬝ᵥ
    program.basicEntries basis j

variable {program : Program Rat} {basis : List Nat} {inverse : List (List Rat)}

/-- The prices of an iteration give the columns their reduced costs. -/
theorem IsBasis.reducedCost_eq (valid : program.IsBasis basis)
    (inverted : Dense.invert (program.basisMatrix basis) = some inverse) (j : Nat) :
    program.reducedCost basis j =
      program.cost j - program.columnDot (Dense.vecMul (basis.map program.cost) inverse) j := by
  obtain ⟨high, wide⟩ := valid.inverse_shape inverted
  have prices := Dense.toVector_vecMul (v := basis.map program.cost) high wide
    (by rw [List.length_map, valid.length])
  -- The prices are the basic costs times the inverse, and the column may be multiplied last.
  rw [reducedCost, basicEntries, valid.inverse_eq inverted, dotProduct_mulVec, ← prices,
    columnDot_eq_sum, dotProduct, ← Fin.sum_univ_eq_sum_range fun i => program.coefficient i j *
      (Dense.vecMul (basis.map program.cost) inverse).getD i 0]
  congr 1
  refine sum_congr rfl fun i _ => ?_
  rw [mul_comm, Dense.toVector, Dense.toVector, Dense.getD_column]
  rfl

/-- The objective of a solution is that of the basis and the reduced costs of its other columns. -/
theorem IsBasis.objective_eq (valid : program.IsBasis basis)
    (inverted : Dense.invert (program.basisMatrix basis) = some inverse) {z : Nat → Rat}
    (solves : ∀ i < program.rows.length, program.leftSide z i = program.rightSide i) :
    program.objective z = program.basicObjective basis +
      ∑ j ∈ (range program.numColumns).filter (· ∉ basis), program.reducedCost basis j * z j := by
  have nonsingular := valid.nonsingular inverted
  have determined := valid.determined nonsingular
  rw [determined.basicObjective_eq valid nonsingular, objective_of_basis valid inverted,
    objective_of_basis valid inverted (z := spread _ _)]
  simp only [← valid.reducedCost_eq inverted]
  -- The rows pay both points the same, and the basic one pays nothing outside the basis.
  rw [sum_eq_zero (s := filter _ _) (f := fun j => _ * spread _ _ j) fun j member => by
    rw [determined.support j (mem_filter.mp member).2, mul_zero], add_zero]
  congr 1
  refine sum_congr rfl fun i row => ?_
  have row := mem_range.mp row
  rw [determined.solves i row, solves i row]

/-- At an optimal iteration no column outside the basis saves more than the tolerance. -/
theorem IsBasis.reducedCost_optimal (valid : program.IsBasis basis) {pricing : PricingRule}
    {tolerance : Rat} {iterate : Iterate Rat}
    (evaluated : Simplex.iterate pricing tolerance program basis = some iterate)
    (decision : iterate.decision = .optimal) {j : Nat} (column : j < program.numColumns)
    (outside : j ∉ basis) : -tolerance ≤ program.reducedCost basis j := by
  obtain ⟨inverse, inverted, -, reduced, choice⟩ := iterate_some evaluated
  rw [decision] at choice
  have listed : (j, program.reducedCost basis j) ∈ iterate.reducedCosts := by
    rw [reduced, valid.reducedCost_eq inverted]
    exact mem_reducedCosts.mpr ⟨column, outside, rfl⟩
  exact not_lt.mp (findEntering_none choice _ listed)

/-- What each column saves at most bounds what a solution saves. -/
theorem IsBasis.objective_ge (valid : program.IsBasis basis)
    (inverted : Dense.invert (program.basisMatrix basis) = some inverse) {tolerance : Rat}
    (bounded : ∀ j < program.numColumns, j ∉ basis → -tolerance ≤ program.reducedCost basis j)
    {z : Nat → Rat} (feasible : program.Feasible z) :
    program.basicObjective basis -
      tolerance * ∑ j ∈ (range program.numColumns).filter (· ∉ basis), z j ≤
        program.objective z := by
  rw [valid.objective_eq inverted feasible.solves, sub_eq_add_neg, ← neg_mul, mul_sum]
  gcongr with j member
  · exact feasible.nonneg j
  · obtain ⟨column, outside⟩ := mem_filter.mp member
    exact bounded j (mem_range.mp column) outside

end Program

end Simplex

open Simplex

namespace Problem

/-- A solution of the rows that were not dropped, as equations in non-negative numbers. -/
structure KeptSolution (problem : Problem Rat ExtendedRat) (dropped : List Nat) (x : List Rat) :
    Prop where
  length : x.length = problem.numVariables
  nonneg : ∀ value ∈ x, 0 ≤ value
  solves : ∀ i (row : i < problem.constraints.length), i ∉ dropped →
    Scalar.dot problem.constraints[i].coefficients x = problem.constraints[i].rhs

/-- The program on the rows that were not dropped. -/
def keptProgram (problem : Problem Rat ExtendedRat) (dropped : List Nat) : Program Rat :=
  (Program.ofProblem problem).restrict
    ((List.range problem.numConstraints).filter (!dropped.contains ·))

variable {problem : Problem Rat ExtendedRat} {dropped : List Nat} {y : List Rat}

theorem KeptSolution.feasible (solution : problem.KeptSolution dropped y)
    (rectangular : problem.Rectangular) :
    (problem.keptProgram dropped).Feasible (y.getD · 0) := by
  refine Program.feasible_restrict.mpr ⟨getD_nonneg solution.nonneg, fun i member => ?_⟩
  obtain ⟨row, kept⟩ := List.mem_filter.mp member
  have row : i < problem.constraints.length := List.mem_range.mp row
  rw [rectangular.leftSide _ row, rightSide_ofProblem row, ← solution.length, map_getD]
  exact solution.solves i row (by simpa using kept)

end Problem

namespace Solver

variable {problem : Problem Rat ExtendedRat} {solver : Solver Rat}

/-- At an optimal outcome no column outside the basis saves more than the tolerance for each unit.
So no solution of the rows that were kept is better than the basis by more than the tolerance for
each unit outside of it. -/
theorem optimal_near_least {solution : BasicSolution Rat}
    (returned : (solver.solveStandard problem).result = .ok (.optimal solution)) :
    (problem.keptProgram solution.droppedRows).IsBasis solution.basis ∧
      IsUnit ((problem.keptProgram solution.droppedRows).matrix solution.basis) ∧
      (∀ j < problem.numVariables, j ∉ solution.basis → -solver.tolerance ≤
        (problem.keptProgram solution.droppedRows).reducedCost solution.basis j) ∧
      ∀ y, problem.KeptSolution solution.droppedRows y →
        (problem.keptProgram solution.droppedRows).basicObjective solution.basis -
          solver.tolerance * ∑ j ∈ (range problem.numVariables).filter (· ∉ solution.basis),
            y.getD j 0 ≤ problem.objectiveAt y := by
  obtain ⟨rectangular, _, start, rows, _, first, ended, _, dropped⟩ :=
    solveStandard_optimal returned
  obtain ⟨valid, distinct, kept⟩ := phaseOne_isBasis first
  obtain ⟨visited, iterate, evaluated, decision, _⟩ := run_optimal_visited ended
  obtain ⟨valid, distinct⟩ := visited.isBasis valid distinct
  obtain ⟨inverse, inverted, -⟩ := iterate_some evaluated
  -- Phase two has run on the rows that were not dropped.
  rw [Problem.length_rows_ofProblem] at kept
  have same : problem.keptProgram solution.droppedRows =
      (Program.ofProblem problem).restrict rows := by
    rw [Problem.keptProgram, dropped]
    exact congrArg _ (filter_dropped kept)
  have wide : ((Program.ofProblem problem).restrict rows).numColumns = problem.numVariables :=
    rectangular.numColumns
  have bounded := fun j (column : j < _) (outside : j ∉ solution.basis) =>
    valid.reducedCost_optimal evaluated decision column outside
  rw [same]
  refine ⟨valid, valid.nonsingular inverted, wide ▸ bounded, fun y other => ?_⟩
  have feasible := other.feasible rectangular
  rw [same] at feasible
  have bound := valid.objective_ge inverted bounded feasible
  have objective : ((Program.ofProblem problem).restrict rows).objective (y.getD · 0) =
      problem.objectiveAt y := by
    refine (rectangular.objective _).trans ?_
    rw [← other.length, Problem.map_getD]
  rwa [wide, objective] at bound

/-- The second row is twice the first, and `y` costs a quarter less than `x`. -/
def slightlyCheaper : Problem Rat ExtendedRat where
  names := ["x", "y"]
  objective := ⟨[1, 3/4], .minimize⟩
  constraints := [⟨"a", [1, 1], .eq, 1⟩, ⟨"b", [2, 2], .eq, 2⟩]
  bounds := [.nonNegative, .nonNegative]

theorem optimal_near_least_slightlyCheaper :
    (Solver.solveStandard ⟨10, 1/2, .dantzig⟩ slightlyCheaper).result =
        .ok (.optimal ⟨[0], [1, 0], 1, [1], ⟨1, 0⟩⟩) ∧
      -(1/2) ≤ (slightlyCheaper.keptProgram [1]).reducedCost [0] 1 ∧
      slightlyCheaper.KeptSolution [1] [0, 1] ∧ slightlyCheaper.objectiveAt [0, 1] = 3/4 ∧
      (slightlyCheaper.keptProgram [1]).basicObjective [0] -
        1/2 * ∑ j ∈ (range 2).filter (· ∉ [0]), [(0 : Rat), 1].getD j 0 ≤
          slightlyCheaper.objectiveAt [0, 1] := by
  have returned : (Solver.solveStandard ⟨10, 1/2, .dantzig⟩ slightlyCheaper).result =
      .ok (.optimal ⟨[0], [1, 0], 1, [1], ⟨1, 0⟩⟩) := by with_unfolding_all rfl
  obtain ⟨_, _, reduced, near⟩ := optimal_near_least returned
  have other : slightlyCheaper.KeptSolution [1] [0, 1] := by
    refine ⟨rfl, by decide, fun i row kept => ?_⟩
    have first : i = 0 := by simp [slightlyCheaper] at row kept; omega
    subst first
    with_unfolding_all rfl
  exact ⟨returned, reduced 1 (by decide) (by decide), other, by with_unfolding_all rfl,
    near _ other⟩

end Solver

end LinOpt
