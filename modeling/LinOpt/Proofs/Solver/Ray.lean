import LinOpt.Proofs.Solver.Phases

/-!
# Rays of unbounded outcomes

An unbounded outcome names a column, a basis and a direction. In exact arithmetic these describe a
half-line of solutions along which the objective falls: it starts at the basic point of the basis,
and because the rows that were dropped follow from the others, it solves all rows of the problem.
-/

namespace LinOpt

open Simplex

/-- The point `t` units along a ray: the entering column has the value `t`, and every basic column
has changed by `-t` times its entry of the direction. -/
def UnboundedRay.pointAt (ray : UnboundedRay Rat) (start : List Rat) (t : Rat) : List Rat :=
  start.mapIdx fun j value =>
    if j = ray.entering then t else value - t * spread ray.basis ray.direction j

namespace Solver

variable {problem : Problem Rat ExtendedRat} {solver : Solver Rat}

/-- From a point without the entering column, the ray adds `t` times its change of each column. -/
theorem pointAt_range {x : Nat → Rat} (unbounded : UnboundedRay Rat) {n : Nat}
    (outside : unbounded.entering ∉ unbounded.basis) (zero : x unbounded.entering = 0) (t : Rat) :
    unbounded.pointAt ((List.range n).map x) t = (List.range n).map fun j =>
      x j + t * ray unbounded.basis unbounded.direction unbounded.entering j := by
  refine List.ext_getElem (by simp [UnboundedRay.pointAt]) fun j _ _ => ?_
  simp only [UnboundedRay.pointAt, List.getElem_mapIdx, List.getElem_map, List.getElem_range]
  by_cases same : j = unbounded.entering
  · rw [if_pos same, same, ray_entering outside, zero, zero_add, mul_one]
  · rw [if_neg same, ray, if_neg same]
    ring

/-- An unbounded outcome is that of phase two, and its ray stays within the solutions of all rows
while the objective falls. -/
theorem unbounded_outcome_ray (exact : solver.tolerance = 0) {ray : UnboundedRay Rat}
    (returned : (solver.solveStandard problem).result = .ok (.unbounded ray)) :
    ray.phase = .two ∧ ray.entering < problem.numVariables ∧ ray.entering ∉ ray.basis ∧
      ray.basis.Nodup ∧ ray.direction.length = ray.basis.length ∧
      ∃ start, problem.NonNegativeSolution start ∧
        (∀ j, j ∉ ray.basis → start.getD j 0 = 0) ∧
        (∀ t, 0 ≤ t → problem.NonNegativeSolution (ray.pointAt start t)) ∧
        StrictAnti fun t => problem.objectiveAt (ray.pointAt start t) := by
  obtain ⟨rectangular, phase, rows, implied, valid, distinct, ⟨x, point⟩, descends, falling⟩ :=
    unbounded_outcome exact returned
  have column : ray.entering < problem.numVariables := by
    rw [← rectangular.numColumns]
    exact descends.column
  have along (t : Rat) := pointAt_range (n := problem.numVariables) ray descends.outside
    (point.support _ descends.outside) t
  refine ⟨phase, column, descends.outside, distinct, descends.parallel,
    (List.range problem.numVariables).map x, ?_, ?_, ?_, ?_⟩
  · exact rectangular.solution (implied.feasible point.toFeasible)
  · intro j outside
    by_cases small : j < problem.numVariables
    · simpa [List.getD, small] using point.support j outside
    · simp [List.getD, small]
  · -- The rows that were kept stay solved along the ray, and they imply the others.
    intro t forth
    rw [along t]
    exact rectangular.solution
      (implied.feasible (descends.unlimited point.toFeasible distinct falling forth))
  · intro s t less
    show problem.objectiveAt _ < problem.objectiveAt _
    rw [along s, along t, ← rectangular.objective, ← rectangular.objective,
      Program.objective_add_mul, Program.objective_add_mul]
    have steeper := mul_lt_mul_of_neg_right less descends.falls
    exact add_lt_add_of_le_of_lt le_rfl steeper

/-- The second row is twice the first, and `x` and `z` may grow together. -/
def doubledStrip : Problem Rat ExtendedRat where
  names := ["x", "y", "z"]
  objective := ⟨[-1, 1, 0], .minimize⟩
  constraints := [⟨"a", [1, 1, -1], .eq, 2⟩, ⟨"b", [2, 2, -2], .eq, 4⟩]
  bounds := [.nonNegative, .nonNegative, .nonNegative]

theorem unbounded_outcome_ray_doubledStrip :
    (Solver.solveStandard ⟨10, 0, .bland⟩ doubledStrip).result =
        .ok (.unbounded ⟨.two, 2, [0], [-1]⟩) ∧
      2 ∉ [0] ∧ ∃ start, doubledStrip.NonNegativeSolution start ∧
        (∀ j, j ∉ [0] → start.getD j 0 = 0) ∧
        (∀ t, 0 ≤ t → doubledStrip.NonNegativeSolution
          (UnboundedRay.pointAt ⟨.two, 2, [0], [-1]⟩ start t)) ∧
        StrictAnti fun t =>
          doubledStrip.objectiveAt (UnboundedRay.pointAt ⟨.two, 2, [0], [-1]⟩ start t) := by
  have returned : (Solver.solveStandard ⟨10, 0, .bland⟩ doubledStrip).result =
      .ok (.unbounded ⟨.two, 2, [0], [-1]⟩) := by with_unfolding_all rfl
  obtain ⟨_, _, outside, _, _, start⟩ := unbounded_outcome_ray rfl returned
  exact ⟨returned, outside, start⟩

end Solver

end LinOpt
