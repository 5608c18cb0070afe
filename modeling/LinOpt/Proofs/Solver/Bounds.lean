import LinOpt.Proofs.Solver.Soundness
import LinOpt.Proofs.Solver.Structure

/-!
# Bounds that need no row

With a tolerance above zero the rows of an optimal outcome may fail, and those of bounds among them.
An end of a variable's bounds that normalization builds into the columns does not need a row: no
column has a negative value, so at any tolerance the recovered value is on the right side of it.
-/

namespace LinOpt

/-- The ends of the bounds that are built into the columns hold at a value: the end of an interval
that has one end, and a lower end that is not positive. -/
structure Bounds.HoldsWithoutRows (bounds : Bounds ExtendedRat) (x : Rat) : Prop where
  lower : ∀ lower, bounds = ⟨.finite lower, .posInf⟩ → lower ≤ x
  upper : ∀ upper, bounds = ⟨.negInf, .finite upper⟩ → x ≤ upper
  range : ∀ lower upper, bounds = ⟨.finite lower, .finite upper⟩ → lower ≤ 0 → lower ≤ x

/-- An amount with the sign of the columns leaves the offset in the direction of the bounds. -/
theorem Eliminates.holdsWithoutRows {bounds : Bounds ExtendedRat} {elimination : Elimination Rat}
    (eliminates : Eliminates bounds elimination) {amount : Rat}
    (upward : (∀ column ∈ elimination.columns, 0 ≤ column.2) → 0 ≤ amount)
    (downward : (∀ column ∈ elimination.columns, column.2 ≤ 0) → amount ≤ 0) :
    bounds.HoldsWithoutRows (elimination.offset?.getD 0 + amount) := by
  cases eliminates with
  | split => constructor <;> simp
  | mirror =>
    have negative : amount ≤ 0 := downward (by simp [Elimination.columns])
    constructor
    case upper =>
      intro upper same
      cases same
      exact add_le_of_nonpos_right negative
    all_goals simp
  | keep | shift =>
    have positive : 0 ≤ amount := upward (by simp [Elimination.columns])
    constructor
    case lower =>
      intro lower same
      cases same
      exact le_add_of_nonneg_right positive
    all_goals simp
  | upperRow | shiftRow =>
    have positive : 0 ≤ amount := upward (by simp [Elimination.columns])
    constructor
    case range =>
      intro lower upper same low
      cases same
      exact le_add_of_nonneg_right positive
    all_goals simp
  | bothRows =>
    have positive : 0 ≤ amount := upward (by simp [Elimination.columns])
    constructor
    case range =>
      -- The lower end has a row, but without the row it holds only if it is not positive.
      intro lower upper same low
      cases same
      exact le_add_of_le_of_nonneg low positive
    all_goals simp

variable {problem : Problem Rat ExtendedRat}

/-- Non-negative columns need not satisfy any row for the ends that are built into them to hold. -/
theorem StandardForm.recover_holdsWithoutRows {eliminations : List (Elimination Rat)}
    (eliminated : List.Forall₂ Eliminates problem.bounds eliminations) {values : List Rat}
    (nonneg : ∀ value ∈ values, 0 ≤ value) :
    List.Forall₂ Bounds.HoldsWithoutRows problem.bounds
      ((ofEliminations problem eliminations).recover values) := by
  refine (forall₂_recover eliminated values).mpr fun i b e place found => ?_
  exact (eliminates_at eliminated place found).holdsWithoutRows
    (amount_nonneg nonneg found) (amount_nonpos nonneg found)

namespace Solver

variable {solver : Solver Rat}

theorem optimal_nonneg {solution : BasicSolution Rat}
    (returned : (solver.solveStandard problem).result = .ok (.optimal solution)) :
    ∀ value ∈ solution.values, 0 ≤ value := by
  intro value member
  rcases (optimal_wellFormed returned).values value member with rfl | positive
  · exact le_rfl
  · exact (not_le.mp positive).le

/-- Whatever the tolerance, an optimal solution has a value for each variable, which is on the right
side of the end of one-sided bounds and of a lower end that is not positive. -/
theorem optimal_within_ends {solution : Solution ExtendedRat Rat}
    (returned : (solver.solve problem).result = .ok solution)
    (optimal : solution.status = .optimal) :
    List.Forall₂ Bounds.HoldsWithoutRows problem.bounds solution.values := by
  obtain ⟨form, outcome, normalized, solved, rfl⟩ := solve_ok returned
  obtain ⟨_, eliminations, eliminated, rfl⟩ := Problem.normalize_ok normalized
  cases outcome with
  | optimal basic =>
    exact StandardForm.recover_holdsWithoutRows eliminated (optimal_nonneg solved)
  | infeasible => cases optimal
  | unbounded ray => cases optimal

/-- With a tolerance of a half both phases pivot, and the answer misses row `c` and the lower end of
`w`. -/
def loose : Problem Rat ExtendedRat where
  names := ["x", "y", "z", "w"]
  objective := ⟨[-3, 2, -2, -2], .minimize⟩
  constraints := [⟨"a", [2, 0, 3, 0], .eq, 20⟩, ⟨"b", [0, 2, 3, 0], .eq, 5⟩,
    ⟨"c", [1, 1, 3, 1], .le, 10⟩]
  bounds := [⟨.finite 1, .posInf⟩, ⟨.negInf, .finite 4⟩, ⟨.finite (-1), .finite 3⟩,
    ⟨.finite 1, .finite 2⟩]

set_option maxRecDepth 1000 in
theorem optimal_within_ends_loose :
    (Solver.solve ⟨10, 1 / 2, .dantzig⟩ loose).result =
        .ok ⟨.optimal, [11 / 2, -2, 3, 0], .finite (-53 / 2),
          ["w", "z", "x", "y", "e_w_lower", "s_w_upper"], ⟨4, 1⟩⟩ ∧
      ¬ loose.Feasible [11 / 2, -2, 3, 0] ∧
      List.Forall₂ Bounds.HoldsWithoutRows loose.bounds [11 / 2, -2, 3, 0] := by
  have returned : (Solver.solve ⟨10, 1 / 2, .dantzig⟩ loose).result =
      .ok ⟨.optimal, [11 / 2, -2, 3, 0], .finite (-53 / 2),
        ["w", "z", "x", "y", "e_w_lower", "s_w_upper"], ⟨4, 1⟩⟩ := by with_unfolding_all rfl
  refine ⟨returned, fun feasible => ?_, optimal_within_ends returned rfl⟩
  have missed : ¬ Scalar.dot [1, 1, 3, 1] [11 / 2, -2, 3, 0] ≤ (10 : Rat) := by
    norm_num
  exact missed (feasible.rows ⟨"c", [1, 1, 3, 1], .le, 10⟩ (by simp [loose]))

end Solver

end LinOpt
