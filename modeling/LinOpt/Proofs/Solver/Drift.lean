import LinOpt.Proofs.Simplex.Drift
import LinOpt.Proofs.Solver.Nonsingular
import LinOpt.Proofs.Solver.Tolerance

/-!
# What solves lose by drifting

With a positive tolerance a basis of a solve can have negative values for three reasons: a pivot of
its phase overshoots, phase one has overshot before, or it has left artificial values within its
limit. As long as none of them occurs, all bases are feasible and the answer solves every row that
was kept. When one does, cutting off the negative values can hide that a row is missed by far more
than the tolerance.
-/

namespace LinOpt

open Finset

namespace Simplex

variable {solver : Solver Rat} {program evaluated : Program Rat} {basis last : List Nat}
  {iterate : Iterate Rat}

/-! ### The way to a negative value -/

/-- The end of phase one has been reached by overshooting, or it leaves artificial values. -/
structure Missed (solver : Solver Rat) (program : Program Rat) (last : List Nat)
    (iterate : Iterate Rat) : Prop extends PhaseOneEnd solver program last iterate where
  missed : Overshot solver.pricing solver.tolerance program.auxiliary
      (List.range program.rows.length) last ∨
    0 < leftOver program.rows.length last iterate.values

/-- The bases that a solve evaluates after it has overshot or has left artificial values. -/
inductive Drifts (solver : Solver Rat) (program : Program Rat) : Program Rat → List Nat → Prop
  | phaseOne {basis : List Nat}
      (overshot : Overshot solver.pricing solver.tolerance program.auxiliary
        (List.range program.rows.length) basis) :
      Drifts solver program program.auxiliary basis
  | removal {last : List Nat} {iterate : Iterate Rat} {state : Remaining}
      (missed : Missed solver program last iterate)
      (rounds : Rounds solver.tolerance program.auxiliary program.rows.length
        ⟨List.range program.rows.length, last⟩ state) :
      Drifts solver program (program.auxiliary.restrict state.rows) state.basis
  | start {last : List Nat} {iterate : Iterate Rat} {start rows : List Nat} {iterations : Nat}
      {basis : List Nat}
      (missed : Missed solver program last iterate)
      (feasible : (Simplex.phaseOne solver program).result =
        .ok (.feasible start rows iterations))
      (visited : Visited solver.pricing solver.tolerance (program.restrict rows) start basis) :
      Drifts solver program (program.restrict rows) basis
  | phaseTwo {start rows : List Nat} {iterations : Nat} {basis : List Nat}
      (feasible : (Simplex.phaseOne solver program).result =
        .ok (.feasible start rows iterations))
      (overshot : Overshot solver.pricing solver.tolerance (program.restrict rows) start basis) :
      Drifts solver program (program.restrict rows) basis

/-! ### Feasible bases in phase one -/

/-- Phase one starts from a feasible basis. -/
theorem Program.feasibleBasis_start (fits : program.rhs.length = program.rows.length)
    (nonneg : ∀ b ∈ program.rhs, 0 ≤ b) :
    program.auxiliary.FeasibleBasis (List.range program.rows.length) := by
  obtain ⟨valid, point⟩ := Program.start_basic fits nonneg
  exact point.feasibleBasis valid (valid.isUnit program.independent_start)

namespace PhaseOneEnd

theorem of_run {values : List Rat} {iterations : Nat}
    (ended : (run solver program.auxiliary .one (List.range program.rows.length)).result =
      .ok (.optimal last values iterations)) :
    ∃ iterate, PhaseOneEnd solver program last iterate := by
  obtain ⟨visited, iterate, evaluated, optimal, rfl⟩ := run_optimal_visited ended
  exact ⟨iterate, ⟨_, ended⟩, evaluated, optimal⟩

/-- At a feasible end of phase one without artificial values, the given columns hold a feasible
point. -/
theorem exists_partialBasis (ends : PhaseOneEnd solver program last iterate)
    (feasible : program.auxiliary.FeasibleBasis last)
    (nothing : leftOver program.rows.length last iterate.values ≤ 0) :
    ∃ x, program.Feasible x ∧
      program.PartialBasis x (List.range program.rows.length) last := by
  obtain ⟨valid, distinct⟩ := ends.isBasis
  obtain ⟨y, point⟩ := feasible.exists_point
  obtain ⟨inverse, inverted, computed, -, -⟩ := iterate_some ends.evaluated
  obtain ⟨_, ended⟩ := ends.ended
  have spread (i : Nat) : spread last iterate.values i = y i := by
    rw [computed, point.values_eq valid inverted, spread_map point.support]
  -- No value is negative, so nothing is cut off, and the artificial values add up to zero.
  simp only [leftOver, spread, max_eq_left (point.nonneg _)] at nothing
  have total := le_antisymm nothing (sum_nonneg fun i _ => point.nonneg i)
  have zero (i : Nat) (row : i < program.rows.length) : y i = 0 :=
    (sum_eq_zero_iff_of_nonneg fun i _ => point.nonneg i).mp total i (mem_range.mpr row)
  exact ⟨_, point.toFeasible.of_auxiliary zero, point.partialBasis (removal_start ended)⟩

/-- Unless something is missed at its end, phase one comes to a feasible point. -/
theorem missed_or_partialBasis (ends : PhaseOneEnd solver program last iterate)
    (nonneg : 0 ≤ solver.tolerance) (fits : program.rhs.length = program.rows.length)
    (positive : ∀ b ∈ program.rhs, 0 ≤ b) :
    Missed solver program last iterate ∨ ∃ x, program.Feasible x ∧
      program.PartialBasis x (List.range program.rows.length) last := by
  obtain ⟨_, ended⟩ := ends.ended
  rcases Visited.feasible_or_overshot (run_optimal_visited ended).1 nonneg
    (Program.feasibleBasis_start fits positive) with feasible | overshot
  · rcases le_or_gt (leftOver program.rows.length last iterate.values) 0 with nothing | left
    · exact .inr (ends.exists_partialBasis feasible nothing)
    · exact .inl ⟨ends, .inr left⟩
  · exact .inl ⟨ends, .inl overshot⟩

end PhaseOneEnd

/-! ### Feasible bases after phase one -/

section Removal

variable {x : Nat → Rat} {tolerance : Rat} {state next : Remaining}

/-- A round keeps the columns of the point, which are no artificial ones. -/
theorem Round.partialBasis
    (round : Round tolerance program.auxiliary program.rows.length state next)
    (start : program.PartialBasis x state.rows state.basis) :
    program.PartialBasis x next.rows next.basis := by
  cases round with
  | @replace rows kept pending column j inverse done artificial inverted found =>
    obtain ⟨_, wide, _, _⟩ := replacement?_some found
    have after := start.replace artificial
      (wide.trans_eq (Program.numColumns_auxiliary program))
    rwa [List.append_assoc, List.singleton_append] at after
  | drop done artificial inverted nothing row => exact start.drop artificial row

theorem Rounds.partialBasis
    (rounds : Rounds tolerance program.auxiliary program.rows.length state next)
    (start : program.PartialBasis x state.rows state.basis) :
    program.PartialBasis x next.rows next.basis := by
  induction rounds with
  | refl => exact start
  | tail _ round ih => exact round.partialBasis ih

end Removal

/-- A partial basis is feasible for the auxiliary program, whose artificial columns are zero. -/
theorem Program.PartialBasis.basicPoint_auxiliary {x : Nat → Rat} {rows : List Nat}
    (start : program.PartialBasis x rows basis) (feasible : program.Feasible x) :
    (program.auxiliary.restrict rows).BasicPoint basis
      fun j => if j < program.rows.length then 0 else x (j - program.rows.length) where
  toFeasible := feasible.auxiliary.restrict fun r member =>
    (start.inside r member).trans_eq (Program.length_auxiliary program).symm
  support j outside := by
    split
    · rfl
    next large =>
      by_contra nonzero
      have member := start.support _ nonzero
      rw [Nat.add_sub_of_le (not_lt.mp large)] at member
      exact outside member

/-- Every basis that a solve evaluates is feasible, unless the solve has drifted before. -/
theorem Evaluates.feasibleBasis_or_drifts (evaluates : Evaluates solver program evaluated basis)
    (nonneg : 0 ≤ solver.tolerance) (fits : program.rhs.length = program.rows.length)
    (positive : ∀ b ∈ program.rhs, 0 ≤ b) :
    evaluated.FeasibleBasis basis ∨ Drifts solver program evaluated basis := by
  have valid := evaluates.isBasis.1
  have nonsingular := valid.isUnit (evaluates.independent nonneg)
  cases evaluates with
  | phaseOne visited =>
    exact (visited.feasible_or_overshot nonneg
      (Program.feasibleBasis_start fits positive)).imp_right .phaseOne
  | removal ended rounds _ =>
    obtain ⟨iterate, ends⟩ := PhaseOneEnd.of_run ended
    rcases ends.missed_or_partialBasis nonneg fits positive with missed | ⟨x, feasible, start⟩
    · exact .inr (.removal missed rounds)
    · have point := (rounds.partialBasis start).basicPoint_auxiliary feasible
      exact .inl (point.feasibleBasis valid nonsingular)
  | phaseTwo returned visited =>
    obtain ⟨last, _, _, columns, ended, rounds, _, rfl⟩ := phaseOne_rounds returned
    obtain ⟨iterate, ends⟩ := PhaseOneEnd.of_run ended
    rcases ends.missed_or_partialBasis nonneg fits positive with missed | ⟨x, feasible, start⟩
    · exact .inr (.start missed returned visited)
    · -- Phase two starts where the point is zero outside the basis, which is nonsingular.
      have point := (rounds.partialBasis start).basicPoint feasible
      have first : Evaluates solver program _ _ := .phaseTwo returned .refl
      have here := point.feasibleBasis first.isBasis.1
        (first.isBasis.1.isUnit (first.independent nonneg))
      exact (visited.feasible_or_overshot nonneg here).imp_right (.phaseTwo returned)

end Simplex

/-! ### Drifts of a solve -/

namespace Solver

open Simplex

variable {solver : Solver Rat} {problem : Problem Rat ExtendedRat}

/-- The answer solves every row that was kept, unless the solve has drifted to it. -/
theorem optimal_keeps_rows_or_drifts (nonneg : 0 ≤ solver.tolerance)
    {solution : BasicSolution Rat}
    (returned : (solver.solveStandard problem).result = .ok (.optimal solution)) :
    (∀ (i : Nat) (row : i < problem.constraints.length), i ∉ solution.droppedRows →
      Scalar.dot problem.constraints[i].coefficients solution.values =
        problem.constraints[i].rhs) ∨
    ∃ rows, Drifts solver (Program.ofProblem problem) ((Program.ofProblem problem).restrict rows)
      solution.basis := by
  obtain ⟨rectangular, standard, start, rows, _, first, ended, _, dropped⟩ :=
    solveStandard_optimal returned
  obtain ⟨visited, iterate, evaluated, _, values⟩ := run_optimal_visited ended
  have evaluates : Evaluates solver (Program.ofProblem problem) _ solution.basis :=
    .phaseTwo first visited
  rcases evaluates.feasibleBasis_or_drifts nonneg (Problem.length_rhs_ofProblem problem)
    (Problem.isStandardForm_rhs standard) with feasible | drifts
  · -- The values are those of a feasible point of the rows that were kept.
    refine .inl fun i row kept => ?_
    obtain ⟨x, point⟩ := feasible.exists_point
    obtain ⟨inverse, inverted, computed, -, -⟩ := iterate_some evaluated
    obtain ⟨_, solves⟩ := Program.feasible_restrict.mp point.toFeasible
    have member : i ∈ rows := by
      by_contra outside
      refine kept (dropped ▸ List.mem_filter.mpr ⟨List.mem_range.mpr row, ?_⟩)
      simpa using outside
    rw [values, computed, point.values_eq feasible.toIsBasis inverted,
      scatter_map point.nonneg point.support]
    have solved := solves i member
    rw [rectangular.leftSide x row, Problem.rightSide_ofProblem row,
      ← rectangular.numColumns] at solved
    exact solved
  · exact .inr ⟨_, drifts⟩

/-- Every basis that a solve evaluates is feasible and every optimal answer solves the rows that
were kept, unless a pivot has overshot or phase one has left artificial values. The first pivot that
overshoots brings no value further below zero than the tolerance times the value of the column that
has entered. -/
theorem evaluated_bases_feasible_or_drift (nonneg : 0 ≤ solver.tolerance)
    (standard : problem.isStandardForm = true) :
    (∀ evaluated basis, Evaluates solver (Program.ofProblem problem) evaluated basis →
      evaluated.FeasibleBasis basis ∨ Drifts solver (Program.ofProblem problem) evaluated basis) ∧
    (∀ evaluated basis next, evaluated.FeasibleBasis basis →
      Pivots solver.pricing solver.tolerance evaluated basis next →
      ∃ row : Fin evaluated.rows.length, next.getD row 0 ∉ basis ∧
        0 ≤ evaluated.basicValues next row ∧
        ∀ k, -(solver.tolerance * evaluated.basicValues next row) ≤
          evaluated.basicValues next k) ∧
    ∀ solution, (solver.solveStandard problem).result = .ok (.optimal solution) →
      (∀ (i : Nat) (row : i < problem.constraints.length), i ∉ solution.droppedRows →
        Scalar.dot problem.constraints[i].coefficients solution.values =
          problem.constraints[i].rhs) ∨
      ∃ rows, Drifts solver (Program.ofProblem problem)
        ((Program.ofProblem problem).restrict rows) solution.basis :=
  ⟨fun _ _ evaluates => evaluates.feasibleBasis_or_drifts nonneg
      (Problem.length_rhs_ofProblem problem) (Problem.isStandardForm_rhs standard),
    fun _ _ _ feasible pivots => feasible.pivot_bound nonneg pivots,
    fun _ returned => optimal_keeps_rows_or_drifts nonneg returned⟩

/-- The second row forces the first variable to zero, but its coefficient limits no step. -/
def passedRow {α β : Type} [Scalar α] [Endpoint β α] : Problem α β where
  names := ["x", "s", "t"]
  objective := ⟨[-1, 0, 0], .minimize⟩
  constraints :=
    [⟨"a", [1, 1, 0], .eq, Scalar.ofDecimal 2 9⟩,
      ⟨"b", [Scalar.ofDecimal 5 (-10), 0, 1], .eq, 0⟩]
  bounds := [.nonNegative, .nonNegative, .nonNegative]

/-- The rows and costs of the problem, over the rational numbers. -/
abbrev passedProgram : Program Rat := Program.ofProblem (passedRow : Problem Rat ExtendedRat)

theorem passedRow_optimal :
    (Solver.standard.solveStandard (passedRow : Problem Rat ExtendedRat)).result =
      .ok (.optimal ⟨[0, 2], [2 * 10 ^ 9, 0, 0], -(2 * 10 ^ 9), [], ⟨2, 0⟩⟩) := by
  with_unfolding_all rfl

/-- The answer misses the second row by one. -/
theorem passedRow_missed :
    Scalar.dot [Scalar.ofDecimal 5 (-10), 0, 1] [(2 * 10 ^ 9 : Rat), 0, 0] = 1 := by
  with_unfolding_all rfl

theorem evaluated_bases_feasible_or_drift_passedRow :
    0 ≤ (Solver.standard : Solver Rat).tolerance ∧
      (passedRow : Problem Rat ExtendedRat).isStandardForm = true ∧
      ∃ rows, Drifts Solver.standard passedProgram (passedProgram.restrict rows) [0, 2] := by
  have nonneg : 0 ≤ (Solver.standard : Solver Rat).tolerance := by
    show (0 : Rat) ≤ (1 : Nat) * 10 ^ (-9 : Int)
    norm_num
  have standard : (passedRow : Problem Rat ExtendedRat).isStandardForm = true := by
    with_unfolding_all rfl
  refine ⟨nonneg, standard, ?_⟩
  -- The second row was kept and is missed, so it must have been a drift.
  rcases (evaluated_bases_feasible_or_drift nonneg standard).2.2 _ passedRow_optimal with
    solves | drifts
  · exact absurd ((solves 1 (by decide) (by simp)).symm.trans passedRow_missed) zero_ne_one
  · exact drifts

/-- The first pivot of phase one is long, and the second row is passed over. -/
theorem passedRow_pivot :
    Visited .dantzig (Solver.standard : Solver Rat).tolerance passedProgram.auxiliary [0, 1]
      [2, 1] := by
  have evaluated : Simplex.iterate .dantzig (Solver.standard : Solver Rat).tolerance
      passedProgram.auxiliary [0, 1] = some ⟨[2 * 10 ^ 9, 0],
        [(2, -(1 + 1 / (2 * 10 ^ 9))), (3, -1), (4, -1)], .pivot 2 0⟩ := by
    with_unfolding_all rfl
  exact .tail .refl ⟨_, 2, 0, evaluated, rfl, rfl⟩

theorem passedRow_phaseOne :
    ∃ k, passedProgram.auxiliary.basicValues [2, 1] k = -1 := by
  have evaluated : Simplex.iterate .dantzig (Solver.standard : Solver Rat).tolerance
      passedProgram.auxiliary [2, 1] = some ⟨[2 * 10 ^ 9, -1],
        [(0, 1 + 1 / (2 * 10 ^ 9)), (3, 1 / (2 * 10 ^ 9)), (4, -1)], .pivot 4 1⟩ := by
    with_unfolding_all rfl
  have valid := (passedRow_pivot.isBasis (Program.isBasis_start _) (by decide)).1
  refine ⟨⟨1, by decide⟩, ?_⟩
  rw [← valid.iterate_values evaluated]
  rfl

theorem passedRow_phaseTwo :
    (phaseOne Solver.standard passedProgram).result = .ok (.feasible [0, 2] [0, 1] 2) ∧
      ∃ k, (passedProgram.restrict [0, 1]).basicValues [0, 2] k = -1 := by
  have evaluated : Simplex.iterate .dantzig (Solver.standard : Solver Rat).tolerance
      (passedProgram.restrict [0, 1]) [0, 2] =
        some ⟨[2 * 10 ^ 9, -1], [(1, 1)], .optimal⟩ := by
    with_unfolding_all rfl
  have feasible : (phaseOne Solver.standard passedProgram).result =
      .ok (.feasible [0, 2] [0, 1] 2) := by with_unfolding_all rfl
  refine ⟨feasible, ⟨1, by decide⟩, ?_⟩
  rw [← (phaseOne_isBasis feasible).1.iterate_values evaluated]
  rfl

/-- In phase one a value falls to minus one, and it is still there in phase two. Cut off at zero, it
becomes an optimum of the standard solver that misses the second row by one, although the problem
has a solution. -/
theorem passedRow_below_zero :
    (∃ basis k, Visited .dantzig (Solver.standard : Solver Rat).tolerance
        passedProgram.auxiliary [0, 1] basis ∧
      passedProgram.auxiliary.basicValues basis k = -1) ∧
    (∃ start rows k, (phaseOne Solver.standard passedProgram).result =
        .ok (.feasible start rows 2) ∧
      (passedProgram.restrict rows).basicValues start k = -1) ∧
    (∃ solution, (Solver.standard.solveStandard (passedRow : Problem Rat ExtendedRat)).result =
        .ok (.optimal solution) ∧ solution.droppedRows = [] ∧
      ∃ constraint ∈ (passedRow : Problem Rat ExtendedRat).constraints,
        Scalar.dot constraint.coefficients solution.values = constraint.rhs + 1) ∧
    (∃ solution, (Solver.standard.solveStandard (passedRow : Problem Float Float)).result =
        .ok (.optimal solution) ∧ solution.iterations = ⟨2, 0⟩) ∧
    (passedRow : Problem Rat ExtendedRat).NonNegativeSolution [0, 2 * 10 ^ 9, 0] := by
  obtain ⟨k, first⟩ := passedRow_phaseOne
  obtain ⟨feasible, l, second⟩ := passedRow_phaseTwo
  refine ⟨⟨_, k, passedRow_pivot, first⟩, ⟨_, _, l, feasible, second⟩,
    ⟨_, passedRow_optimal, rfl, _, List.mem_cons_of_mem _ (List.mem_singleton_self _),
      passedRow_missed.trans (zero_add 1).symm⟩,
    Outcome.exists_of_pivots? (by decide +kernel), rfl, by norm_num, fun constraint row => ?_⟩
  simp only [passedRow, List.mem_cons, List.not_mem_nil, or_false] at row
  rcases row with rfl | rfl <;> with_unfolding_all rfl

end Solver

end LinOpt
