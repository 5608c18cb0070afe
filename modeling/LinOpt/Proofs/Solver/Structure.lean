import LinOpt.Proofs.Scalar.Comparison
import LinOpt.Proofs.Solver.Evaluations

/-!
# The structure of an outcome

Rounding, infinities and NaN can make the numbers of an outcome meaningless, but not its structure:
which columns are basic, which rows were dropped, how long the lists are and that everything a solve
looks up is there. All of this follows from comparisons of indices, whatever the comparisons of
numbers say.
-/

namespace LinOpt

namespace Simplex

variable {α : Type} [Scalar α]

/-! ### Everything that is looked up is there -/

/-- One entry for each column in every row, and one right side for each row. -/
structure Program.Rectangular (program : Program α) : Prop where
  rows : ∀ row ∈ program.rows, row.length = program.numColumns
  rhs : program.rhs.length = program.rows.length

namespace Program.Rectangular

variable {program : Program α}

theorem auxiliary (rectangular : program.Rectangular) : program.auxiliary.Rectangular where
  rows row member := by
    obtain ⟨i, small, rfl⟩ := List.getElem_of_mem member
    have given : i < program.rows.length := (length_auxiliary program) ▸ small
    have wide := rectangular.rows _ (List.getElem_mem given)
    rw [numColumns_auxiliary, ← wide]
    simp [Program.auxiliary, Dense.identity]
  rhs := rectangular.rhs.trans (length_auxiliary program).symm

theorem restrict (rectangular : program.Rectangular) {rows : List Nat}
    (inside : ∀ r ∈ rows, r < program.rows.length) : (program.restrict rows).Rectangular where
  rows row member := by
    obtain ⟨r, kept, rfl⟩ := List.mem_map.mp member
    rw [List.getD_eq_getElem _ _ (inside r kept)]
    exact rectangular.rows _ (List.getElem_mem _)
  rhs := by simp [Program.restrict]

end Program.Rectangular

/-- What the evaluation of a basis looks up is there: the entries of the rows, a basic column and a
right side for each row, both halves of the rows and the pivot row while elimination goes on, and
the places of the values, of the direction, of the entering column and of the leaving row. -/
structure InRange (solver : Solver α) (program : Program α) (basis : List Nat) : Prop where
  rectangular : program.Rectangular
  columns : program.IsBasis basis
  distinct : basis.Nodup
  elimination : ∀ k reached, (List.range k).foldlM Dense.eliminateColumn
      (List.zipWith Dense.Augmented.mk (program.basisMatrix basis)
        (Dense.identity (program.basisMatrix basis).length)) = some reached →
    Dense.Squared basis.length reached ∧
      (k < basis.length → Dense.pivotRow reached k < basis.length)
  inverse : ∀ inverse, Dense.invert (program.basisMatrix basis) = some inverse →
    inverse.length = basis.length ∧ ∀ row ∈ inverse, row.length = basis.length
  iteration : ∀ iterate,
    Simplex.iterate solver.pricing solver.tolerance program basis = some iterate →
      iterate.values.length = basis.length ∧ match iterate.decision with
        | .optimal => True
        | .pivot entering row =>
          entering < program.numColumns ∧ entering ∉ basis ∧ row < basis.length
        | .unbounded entering direction =>
          entering < program.numColumns ∧ entering ∉ basis ∧ direction.length = basis.length

variable {solver : Solver α} {program evaluated : Program α} {basis rows : List Nat}

theorem Program.Rectangular.inRange (rectangular : program.Rectangular)
    (valid : program.IsBasis basis) (distinct : basis.Nodup) : InRange solver program basis where
  rectangular := rectangular
  columns := valid
  distinct := distinct
  elimination k reached eliminated := by
    have square : ∀ row ∈ program.basisMatrix basis,
        row.length = (program.basisMatrix basis).length := by
      rw [Program.length_basisMatrix]
      exact valid.square
    have squared := (Dense.Squared.start square).fold eliminated
    rw [Program.length_basisMatrix, ← valid.length] at squared
    refine ⟨squared, fun inside => ?_⟩
    have below := Dense.pivotRow_lt (inside.trans_eq squared.length.symm)
    exact below.trans_eq squared.length
  inverse inverse inverted := by
    rw [valid.length]
    exact valid.inverse_shape inverted
  iteration _ evaluated := iterate_shape valid evaluated

/-- A solve of a rectangular program finds everything that it looks up. -/
theorem Evaluates.inRange (evaluates : Evaluates solver program evaluated basis)
    (rectangular : program.Rectangular) : InRange solver evaluated basis := by
  obtain ⟨valid, distinct⟩ := evaluates.isBasis
  refine Program.Rectangular.inRange ?_ valid distinct
  cases evaluates with
  | phaseOne visited => exact rectangular.auxiliary
  | removal ended rounds _ =>
    have sound := Rounds.sound rounds (removal_start ended)
    refine rectangular.auxiliary.restrict fun r member => ?_
    exact (sound.row_lt member).trans_eq (Program.length_auxiliary program).symm
  | phaseTwo feasible visited =>
    obtain ⟨_, _, kept⟩ := phaseOne_isBasis feasible
    exact rectangular.restrict fun r member => List.mem_range.mp (kept.mem member)

/-! ### The removal of artificial columns -/

/-- The loop ends: no sequence of rounds goes on forever. -/
theorem round_wellFounded (tolerance : α) (auxiliary : Program α) (m : Nat) :
    WellFounded fun next state => Round tolerance auxiliary m state next :=
  Subrelation.wf (fun round => round.artificials_lt)
    (measure fun state : Remaining => state.basis.countP (· < m)).wf

/-! ### Lists of an outcome -/

/-- The rows that were kept, in the order of the problem. -/
theorem filter_contains {m : Nat} (kept : rows.Sublist (List.range m)) :
    (List.range m).filter (rows.contains ·) = rows := by
  refine List.Perm.eq_of_pairwise' (r := (· < ·)) (List.pairwise_lt_range.filter _)
    (List.pairwise_lt_range.sublist kept) ?_
  refine (List.perm_ext_iff_of_nodup (List.nodup_range.filter _)
    (List.nodup_range.sublist kept)).mpr fun r => ?_
  rw [List.mem_filter, List.contains_iff_mem]
  exact ⟨And.right, fun member => ⟨kept.mem member, member⟩⟩

/-- The rows that were kept and those that were dropped are all rows. -/
theorem length_dropped {m : Nat} (kept : rows.Sublist (List.range m)) :
    rows.length + ((List.range m).filter (!rows.contains ·)).length = m := by
  have all := List.length_eq_length_filter_add (l := List.range m) (rows.contains ·)
  rw [filter_contains kept, List.length_range] at all
  exact all.symm

/-- The rows that were kept are those that were not dropped. -/
theorem filter_dropped {m : Nat} (kept : rows.Sublist (List.range m)) :
    (List.range m).filter (!((List.range m).filter (!rows.contains ·)).contains ·) = rows := by
  rw [← filter_contains kept]
  refine List.filter_congr fun r member => ?_
  simp [List.mem_range.mp member]

theorem scatter_outside {n j : Nat} (small : j < n) (outside : j ∉ basis) (values : List α) :
    (scatter n basis values)[j]? = some 0 := by
  have nothing := lookup_zip_of_not_mem outside values
  simp [scatter, small, nothing]

/-- Scattered values are zero or not at most zero. -/
theorem mem_scatter {n : Nat} {values : List α} {value : α}
    (member : value ∈ scatter n basis values) : value = 0 ∨ ¬ value ≤ 0 := by
  obtain ⟨j, _, rfl⟩ := List.mem_map.mp member
  split
  · split
    · exact Or.inl rfl
    next positive => exact Or.inr positive
  · exact Or.inl rfl

end Simplex

open Simplex

/-! ### Outcomes -/

/-- The structure of a basic solution of a problem with `m` rows and `n` columns. -/
structure BasicSolution.WellFormed {α : Type} [Scalar α] (solution : BasicSolution α) (m n : Nat) :
    Prop where
  distinct : solution.basis.Nodup
  columns : ∀ j ∈ solution.basis, j < n
  increasing : solution.droppedRows.Pairwise (· < ·)
  rows : ∀ r ∈ solution.droppedRows, r < m
  counted : solution.basis.length + solution.droppedRows.length = m
  length : solution.values.length = n
  outside : ∀ j < n, j ∉ solution.basis → solution.values[j]? = some 0
  values : ∀ value ∈ solution.values, value = 0 ∨ ¬ value ≤ 0

/-- The structure of a ray; in phase one there is a column for each row besides those of the
problem, and no row is dropped. -/
structure UnboundedRay.WellFormed {α : Type} (ray : UnboundedRay α) (m n : Nat) : Prop where
  distinct : ray.basis.Nodup
  outside : ray.entering ∉ ray.basis
  parallel : ray.direction.length = ray.basis.length
  phaseOne : ray.phase = .one →
    ray.basis.length = m ∧ ray.entering < m + n ∧ ∀ j ∈ ray.basis, j < m + n
  phaseTwo : ray.phase = .two → ray.entering < n ∧ ∀ j ∈ ray.basis, j < n

namespace Solver

section Shape

variable {α β : Type} [Scalar α] [Endpoint β α] {solver : Solver α} {problem : Problem α β}

theorem rectangular_ofProblem (rectangular : problem.Rectangular) :
    (Program.ofProblem problem).Rectangular where
  rows row member := by
    obtain ⟨constraint, listed, rfl⟩ := List.mem_map.mp member
    rw [rectangular.rows constraint listed, rectangular.numColumns]
  rhs := Problem.length_rhs_ofProblem problem

theorem optimal_wellFormed {solution : BasicSolution α}
    (returned : (solver.solveStandard problem).result = .ok (.optimal solution)) :
    solution.WellFormed problem.numConstraints problem.numVariables := by
  obtain ⟨rectangular, _, start, rows, _, first, ended, _, dropped⟩ :=
    solveStandard_optimal returned
  obtain ⟨valid, distinct, kept⟩ := phaseOne_isBasis first
  obtain ⟨visited, iterate, _, _, values⟩ := run_optimal_visited ended
  obtain ⟨valid, distinct⟩ := visited.isBasis valid distinct
  have wide : ((Program.ofProblem problem).restrict rows).numColumns = problem.numVariables :=
    rectangular.numColumns
  -- There are as many basic columns as rows that were kept.
  rw [Problem.length_rows_ofProblem] at kept
  have counted := length_dropped kept
  rw [← Program.length_restrict (Program.ofProblem problem) rows, ← valid.length] at counted
  constructor
  case distinct => exact distinct
  case columns => exact fun j member => (valid.columns j member).trans_eq wide
  case increasing =>
    rw [dropped]
    exact List.pairwise_lt_range.filter _
  case rows =>
    intro r member
    rw [dropped] at member
    exact List.mem_range.mp (List.mem_filter.mp member).1
  case counted =>
    rw [dropped]
    exact counted
  case length =>
    rw [values, wide]
    simp [scatter]
  case outside =>
    intro j small outside
    rw [values, wide]
    exact scatter_outside small outside _
  case values =>
    rw [values]
    exact fun value => mem_scatter

theorem unbounded_wellFormed {ray : UnboundedRay α}
    (returned : (solver.solveStandard problem).result = .ok (.unbounded ray)) :
    ray.WellFormed problem.numConstraints problem.numVariables := by
  obtain ⟨rectangular, _, result⟩ := solveStandard_ok returned
  -- Rounding can make phase one unbounded, on the columns of the auxiliary program.
  rcases result with ⟨other, _⟩ | ⟨ray, same, first⟩ | ⟨basis, rows, iterations, first, second⟩
  · cases other
  · cases same
    obtain ⟨last, ⟨entering, direction, same, ended⟩ | ⟨_, _, _, other⟩⟩ := phaseOne_ok first
    · cases same
      obtain ⟨visited, iterate, evaluated, unbounded⟩ := run_unbounded_visited ended
      obtain ⟨valid, distinct⟩ := visited.isBasis (Program.isBasis_start _) List.nodup_range
      obtain ⟨_, shape⟩ := iterate_shape valid evaluated
      rw [unbounded] at shape
      have wide : (Program.ofProblem problem).auxiliary.numColumns =
          problem.numConstraints + problem.numVariables := by
        rw [Program.numColumns_auxiliary, Problem.length_rows_ofProblem, rectangular.numColumns]
        rfl
      refine ⟨distinct, shape.2.1, shape.2.2, fun _ => ⟨?_, ?_, ?_⟩, nofun⟩
      · rw [valid.length, Program.length_auxiliary, Problem.length_rows_ofProblem]
        rfl
      · exact shape.1.trans_eq wide
      · exact fun j member => (valid.columns j member).trans_eq wide
    · rcases other with ⟨other, _⟩ | ⟨_, _, other, _⟩ <;> cases other
  · obtain ⟨last, ⟨_, _, _, other⟩ | ⟨entering, direction, ended, same⟩⟩ := phaseTwo_ok second
    · cases other
    · cases same
      obtain ⟨valid, distinct, _⟩ := phaseOne_isBasis first
      obtain ⟨visited, iterate, evaluated, unbounded⟩ := run_unbounded_visited ended
      obtain ⟨valid, distinct⟩ := visited.isBasis valid distinct
      obtain ⟨_, shape⟩ := iterate_shape valid evaluated
      rw [unbounded] at shape
      have wide : ((Program.ofProblem problem).restrict rows).numColumns = problem.numVariables :=
        rectangular.numColumns
      refine ⟨distinct, shape.2.1, shape.2.2, nofun, fun _ => ⟨?_, ?_⟩⟩
      · exact shape.1.trans_eq wide
      · exact fun j member => (valid.columns j member).trans_eq wide

/-- The row of an artificial column never goes before the column. -/
theorem never_without_row (column : Nat) :
    (solver.solveStandard problem).result ≠ .error (.failure (.artificialWithoutRow column)) := by
  intro failed
  rcases solveStandard_failure failed with ⟨_, _, _, _, other, _⟩ | ⟨_, other⟩ <;> cases other

end Shape

/-! ### Floating-point numbers -/

/-- On any floating-point data an optimal outcome and an unbounded one are well-formed, everything
that is looked up on the way to them is there, and the removal of artificial columns ends without
missing the row of one. The zeros outside an optimal basis have all bits zero, so they are positive
ones. -/
theorem outcome_structure {solver : Solver Float} {problem : Problem Float Float}
    (valid : problem.validate = .ok ()) :
    (∀ solution, (solver.solveStandard problem).result = .ok (.optimal solution) →
      solution.WellFormed problem.numConstraints problem.numVariables ∧
        (∀ j < problem.numVariables, j ∉ solution.basis →
          solution.values[j]?.map Float.toBits = some 0) ∧
        ∀ value ∈ solution.values, 0 ≤ value ∨ value.isNaN = true) ∧
    (∀ ray, (solver.solveStandard problem).result = .ok (.unbounded ray) →
      ray.WellFormed problem.numConstraints problem.numVariables) ∧
    (∀ evaluated basis, Evaluates solver (Program.ofProblem problem) evaluated basis →
      InRange solver evaluated basis) ∧
    (∀ last values iterations, (run solver (Program.ofProblem problem).auxiliary .one
        (List.range problem.numConstraints)).result = .ok (.optimal last values iterations) →
      values.length = problem.numConstraints + problem.numVariables ∧
        ∀ state, Rounds solver.tolerance (Program.ofProblem problem).auxiliary
          problem.numConstraints ⟨List.range problem.numConstraints, last⟩ state →
            state.Sound (Program.ofProblem problem)) ∧
    (∀ start rows iterations, (phaseOne solver (Program.ofProblem problem)).result =
        .ok (.feasible start rows iterations) →
      rows.Sublist (List.range problem.numConstraints) ∧ start.length = rows.length) ∧
    (WellFounded fun next state => Round solver.tolerance (Program.ofProblem problem).auxiliary
      problem.numConstraints state next) ∧
    ∀ column, (solver.solveStandard problem).result ≠
      .error (.failure (.artificialWithoutRow column)) := by
  have rectangular := Problem.validate_eq_ok_iff.mp valid
  have height : problem.numConstraints = (Program.ofProblem problem).rows.length :=
    (Problem.length_rows_ofProblem problem).symm
  refine ⟨fun solution returned => ?_, fun ray => unbounded_wellFormed,
    fun evaluated basis evaluates => evaluates.inRange (rectangular_ofProblem rectangular),
    fun last values iterations ended => ?_, fun start rows iterations feasible => ?_,
    round_wellFounded _ _ _, never_without_row⟩
  · have wellFormed := optimal_wellFormed returned
    refine ⟨wellFormed, fun j small outside => ?_, fun value member => ?_⟩
    · rw [wellFormed.outside j small outside]
      rfl
    rcases wellFormed.values value member with rfl | positive
    · exact Or.inl (by decide)
    · exact nonneg_or_isNaN positive
  · rw [height] at ended ⊢
    obtain ⟨_, iterate, _, _, rfl⟩ := run_optimal_visited ended
    refine ⟨?_, fun state rounds => rounds.sound (removal_start ended)⟩
    rw [← rectangular.numColumns, ← Program.numColumns_auxiliary]
    simp [scatter]
  · obtain ⟨basis, _, kept⟩ := phaseOne_isBasis feasible
    rw [height]
    exact ⟨kept, basis.length.trans (Program.length_restrict _ rows)⟩

/-- The second row is twice the first, and what `y` costs is not a number. -/
def unpriced : Problem Float Float where
  names := ["x", "y"]
  objective := ⟨[1, 0 / 0], .minimize⟩
  constraints := [⟨"a", [1, 1], .eq, 1⟩, ⟨"b", [2, 2], .eq, 2⟩]
  bounds := [.nonNegative, .nonNegative]

theorem outcome_structure_unpriced :
    unpriced.validate = .ok () ∧
      (∃ solution, (Solver.solveStandard ⟨10, 1e-9, .dantzig⟩ unpriced).result =
          .ok (.optimal solution) ∧ solution.basis = [0] ∧ solution.droppedRows = [1] ∧
        solution.WellFormed 2 2 ∧ solution.values[1]?.map Float.toBits = some 0 ∧
        ∀ value ∈ solution.values, 0 ≤ value ∨ value.isNaN = true) ∧
      ∀ column, (Solver.solveStandard ⟨10, 1e-9, .dantzig⟩ unpriced).result ≠
        .error (.failure (.artificialWithoutRow column)) := by
  have valid : unpriced.validate = .ok () := rfl
  have solved : (match (Solver.solveStandard ⟨10, 1e-9, .dantzig⟩ unpriced).result with
      | .ok (.optimal solution) =>
        decide (solution.basis = [0] ∧ solution.droppedRows = [1])
      | _ => false) = true := by decide +kernel
  obtain ⟨optimal, _, _, _, _, _, never⟩ :=
    @outcome_structure ⟨10, 1e-9, .dantzig⟩ unpriced valid
  refine ⟨valid, ?_, never⟩
  split at solved
  next solution returned =>
    obtain ⟨basis, dropped⟩ := of_decide_eq_true solved
    obtain ⟨wellFormed, outside, values⟩ := optimal solution returned
    have zero := outside 1 (by decide) (by rw [basis]; decide)
    exact ⟨solution, returned, basis, dropped, wellFormed, zero, values⟩
  · cases solved

end Solver

end LinOpt
