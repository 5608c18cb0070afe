import LinOpt.Proofs.Simplex.Tolerance
import LinOpt.Proofs.Solver.Limit

/-!
# What the tolerance of phase one lets through

With the tolerance zero phase one decides rightly whether a problem has a solution. A positive
tolerance, the standard one included, leaves two gaps, also in exact arithmetic. A column of small
coefficients can end phase one as unbounded, although the artificial values it has to lower are not
negative. And a problem without solutions can pass for a feasible one, because the limit for the
artificial values grows with the largest right side of all rows, or because negative values are cut
off before they are added up. The theorems say that nothing else gets through.
-/

namespace LinOpt

open Finset Simplex

/-! ### Unbounded outcomes of phase one -/

/-- The phase in which an outcome is unbounded. -/
def Outcome.unboundedPhase? {α : Type} : Outcome α → Option Phase
  | .unbounded ray => some ray.phase
  | .optimal _ => none
  | .infeasible => none

theorem Outcome.exists_of_unboundedPhase? {error α : Type} {result : Except error (Outcome α)}
    {phase : Phase} (found : result.toOption.bind unboundedPhase? = some phase) :
    ∃ ray, result = .ok (.unbounded ray) ∧ ray.phase = phase := by
  cases result with
  | error reason => cases found
  | ok outcome =>
    cases outcome with
    | unbounded ray => exact ⟨ray, rfl, Option.some.inj found⟩
    | optimal solution => cases found
    | infeasible => cases found

namespace Solver

variable {solver : Solver Rat} {problem : Problem Rat ExtendedRat}

/-- A ray of phase one needs a positive tolerance and several artificial columns in the basis. No
entry of its direction is above the tolerance, and it is no evidence of anything unbounded: along it
an artificial column falls, which cannot go on forever. -/
theorem phaseOne_ray_shallow (nonneg : 0 ≤ solver.tolerance) {ray : UnboundedRay Rat}
    (returned : (solver.solveStandard problem).result = .ok (.unbounded ray))
    (first : ray.phase = .one) :
    Shallow solver.tolerance problem.numConstraints ray.basis ray.direction ∧
      0 < solver.tolerance ∧ 1 < #{i ∈ range problem.numConstraints | i ∈ ray.basis} ∧
      ∃ i ∈ ray.basis, i < problem.numConstraints ∧ 0 < spread ray.basis ray.direction i := by
  obtain ⟨_, _, ⟨other, _⟩ | ⟨_, same, ended⟩ | ⟨_, _, _, _, second⟩⟩ := solveStandard_ok returned
  · cases other
  · cases same
    have shallow := phaseOne_shallow ended
    rw [Problem.length_rows_ofProblem] at shallow
    obtain ⟨positive, several⟩ := shallow.several nonneg
    exact ⟨shallow, positive, several, shallow.falls nonneg⟩
  · obtain ⟨_, ⟨_, _, _, other⟩ | ⟨_, _, _, other⟩⟩ := phaseTwo_ok second
    · cases other
    · cases other
      cases first

/-- One column of small coefficients that solves both rows. -/
def smallColumn {α β : Type} [Scalar α] [Endpoint β α] : Problem α β where
  names := ["x"]
  objective := ⟨[1], .minimize⟩
  constraints :=
    [⟨"a", [Scalar.ofDecimal 8 (-10)], .eq, Scalar.ofDecimal 8 0⟩,
      ⟨"b", [Scalar.ofDecimal 8 (-10)], .eq, Scalar.ofDecimal 8 0⟩]
  bounds := [.nonNegative]

theorem phaseOne_ray_shallow_smallColumn :
    (Solver.standard.solveStandard (smallColumn : Problem Rat ExtendedRat)).result =
        .ok (.unbounded ⟨.one, 2, [0, 1], [8 / 10 ^ 10, 8 / 10 ^ 10]⟩) ∧
      Shallow (Solver.standard : Solver Rat).tolerance 2 [0, 1] [8 / 10 ^ 10, 8 / 10 ^ 10] ∧
      1 < #{i ∈ range 2 | i ∈ [0, 1]} := by
  have returned : (Solver.standard.solveStandard (smallColumn : Problem Rat ExtendedRat)).result =
      .ok (.unbounded ⟨.one, 2, [0, 1], [8 / 10 ^ 10, 8 / 10 ^ 10]⟩) := by with_unfolding_all rfl
  have nonneg : 0 ≤ (Solver.standard : Solver Rat).tolerance := by
    show (0 : Rat) ≤ (1 : Nat) * 10 ^ (-9 : Int)
    norm_num
  obtain ⟨shallow, _, several, _⟩ := phaseOne_ray_shallow nonneg returned rfl
  exact ⟨returned, shallow, several⟩

/-- The standard solver reports the problem as unbounded in phase one, although it has a solution
and no solution has a negative objective. -/
theorem smallColumn_unbounded :
    (∃ ray, (Solver.standard.solveStandard (smallColumn : Problem Float Float)).result =
        .ok (.unbounded ray) ∧ ray.phase = .one) ∧
      (Solver.standard.solve (smallColumn : Problem Float Float)).result.toOption.map (·.status) =
        some .unbounded ∧
      (smallColumn : Problem Rat ExtendedRat).NonNegativeSolution [10 ^ 10] ∧
      ∀ x, (smallColumn : Problem Rat ExtendedRat).NonNegativeSolution x →
        0 ≤ (smallColumn : Problem Rat ExtendedRat).objectiveAt x := by
  refine ⟨Outcome.exists_of_unboundedPhase? (by decide +kernel), by decide +kernel, ?_, ?_⟩
  · refine ⟨rfl, by simp, fun constraint row => ?_⟩
    simp only [smallColumn, List.mem_cons, List.not_mem_nil, or_false] at row
    rcases row with rfl | rfl <;> with_unfolding_all rfl
  · intro x solution
    refine Scalar.dot_nonneg (fun cost member => ?_) solution.nonneg
    rw [List.mem_singleton.mp member]
    exact zero_le_one

end Solver

/-! ### Optimal outcomes without solutions -/

/-- By how much a point misses the rows of a problem, all of them together. -/
def Problem.violation (problem : Problem Rat ExtendedRat) (x : List Rat) : Rat :=
  (problem.constraints.map fun c => |Scalar.dot c.coefficients x - c.rhs|).sum

variable {solver : Solver Rat} {problem : Problem Rat ExtendedRat}

theorem Problem.Rectangular.violation (rectangular : problem.Rectangular) (x : Nat → Rat) :
    (Program.ofProblem problem).violation x =
      problem.violation ((List.range problem.numVariables).map x) := by
  rw [Program.violation, Problem.violation, length_rows_ofProblem, sum_range, ← List.sum_ofFn]
  congr 1
  refine List.ext_getElem (by simp) fun i _ small => ?_
  have row : i < problem.constraints.length := by simpa using small
  rw [List.getElem_ofFn, List.getElem_map, rectangular.leftSide x row, rightSide_ofProblem row]

namespace Solver

/-- What an optimal outcome says about the feasibility of the rows. The positive artificial values
that phase one leaves keep to its limit, and some point misses the rows by no more than these values
and what was cut off from negative ones, which is nothing if no value is negative. -/
theorem optimal_violation {solution : BasicSolution Rat}
    (returned : (solver.solveStandard problem).result = .ok (.optimal solution)) :
    ∃ last iterate, PhaseOneEnd solver (Program.ofProblem problem) last iterate ∧
      leftOver problem.numConstraints last iterate.values ≤
        infeasibilityLimit solver.tolerance problem.rhs ∧
      ∃ x : List Rat, x.length = problem.numVariables ∧ (∀ value ∈ x, 0 ≤ value) ∧
        problem.violation x ≤ leftOver problem.numConstraints last iterate.values +
          (Program.ofProblem problem).auxiliary.cutOff last iterate.values ∧
        ((∀ value ∈ iterate.values, 0 ≤ value) →
          problem.violation x ≤ infeasibilityLimit solver.tolerance problem.rhs) := by
  obtain ⟨rectangular, _, ⟨other, _⟩ | ⟨_, other, _⟩ | ⟨_, _, _, first, _⟩⟩ :=
    solveStandard_ok returned
  · cases other
  · cases other
  · obtain ⟨last, iterate, ends, small, x, nonneg, missed⟩ := phaseOne_violation first
    rw [Problem.length_rows_ofProblem] at small missed
    rw [rectangular.violation] at missed
    refine ⟨last, iterate, ends, small, _, by simp, fun value member => ?_, missed, ?_⟩
    · obtain ⟨j, _, rfl⟩ := List.mem_map.mp member
      exact nonneg j
    · intro positive
      rw [ends.cutOff_eq_zero positive, add_zero] at missed
      exact missed.trans small

/-- The second row has no solution, and the right side of the first is large. -/
def strayRow {α β : Type} [Scalar α] [Endpoint β α] : Problem α β where
  names := ["x"]
  objective := ⟨[1], .minimize⟩
  constraints :=
    [⟨"a", [1], .eq, Scalar.ofDecimal 1 9⟩, ⟨"b", [0], .eq, Scalar.ofDecimal 5 (-1)⟩]
  bounds := [.nonNegative]

/-- Only zero solves the second row, whose coefficient limits no step. -/
def driftingRow {α β : Type} [Scalar α] [Endpoint β α] : Problem α β where
  names := ["x"]
  objective := ⟨[1], .minimize⟩
  constraints :=
    [⟨"a", [Scalar.ofDecimal 1 (-8)], .eq, 1⟩, ⟨"b", [Scalar.ofDecimal 1 (-9)], .eq, 0⟩]
  bounds := [.nonNegative]

theorem optimal_violation_strayRow :
    (Solver.standard.solveStandard (strayRow : Problem Rat ExtendedRat)).result =
        .ok (.optimal ⟨[0], [10 ^ 9], 10 ^ 9, [1], ⟨1, 0⟩⟩) ∧
      ∃ last iterate, PhaseOneEnd Solver.standard
          (Program.ofProblem (strayRow : Problem Rat ExtendedRat)) last iterate ∧
        leftOver 2 last iterate.values ≤
          infeasibilityLimit (Solver.standard : Solver Rat).tolerance
            (strayRow : Problem Rat ExtendedRat).rhs := by
  have returned : (Solver.standard.solveStandard (strayRow : Problem Rat ExtendedRat)).result =
      .ok (.optimal ⟨[0], [10 ^ 9], 10 ^ 9, [1], ⟨1, 0⟩⟩) := by with_unfolding_all rfl
  obtain ⟨last, iterate, ends, small, _⟩ := optimal_violation returned
  exact ⟨returned, last, iterate, ends, small⟩

theorem violation_strayRow (v : Rat) :
    1 / 10 ≤ (strayRow : Problem Rat ExtendedRat).violation [v] := by
  show (1 : Rat) / 10 ≤ |0 + 1 * v - (1 : Nat) * 10 ^ (9 : Int)| +
    (|0 + 0 * v - (5 : Nat) * 10 ^ (-1 : Int)| + 0)
  refine le_add_of_nonneg_of_le (abs_nonneg _) ?_
  norm_num

theorem violation_driftingRow (v : Rat) :
    1 / 10 ≤ (driftingRow : Problem Rat ExtendedRat).violation [v] := by
  show (1 : Rat) / 10 ≤ |0 + (1 : Nat) * 10 ^ (-8 : Int) * v - 1| +
    (|0 + (1 : Nat) * 10 ^ (-9 : Int) * v - 0| + 0)
  norm_num
  -- What the first row lacks, and a tenth of what it has, for the second row.
  have short := neg_abs_le (1 / 100000000 * v - 1)
  have far := le_abs_self v
  have nonneg := abs_nonneg (1 / 100000000 * v - 1)
  linarith

/-- The standard solver reports an optimum for both problems, although every point misses their rows
by a tenth or more. -/
theorem rows_missed_optimal :
    (∃ solution, (Solver.standard.solveStandard (strayRow : Problem Float Float)).result =
        .ok (.optimal solution) ∧ solution.iterations = ⟨1, 0⟩) ∧
      (∀ v, 1 / 10 ≤ (strayRow : Problem Rat ExtendedRat).violation [v]) ∧
      (∃ solution, (Solver.standard.solveStandard (driftingRow : Problem Float Float)).result =
        .ok (.optimal solution) ∧ solution.iterations = ⟨1, 0⟩) ∧
      ∀ v, 1 / 10 ≤ (driftingRow : Problem Rat ExtendedRat).violation [v] :=
  ⟨Outcome.exists_of_pivots? (by decide +kernel), violation_strayRow,
    Outcome.exists_of_pivots? (by decide +kernel), violation_driftingRow⟩

end Solver

end LinOpt
