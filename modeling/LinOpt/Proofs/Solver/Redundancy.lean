import Mathlib.LinearAlgebra.Dual.Lemmas
import Mathlib.LinearAlgebra.Matrix.Rank
import LinOpt.Proofs.Simplex.Values
import LinOpt.Proofs.Solver.Nonsingular
import LinOpt.Proofs.Solver.Structure

/-!
# Redundant rows

The removal of artificial columns drops the rows without a replacement. In exact arithmetic these
rows say nothing new: with their right sides they are combinations of the rows that were kept. The
kept rows are independent, because the columns of the basis that is left are.
-/

namespace LinOpt

open Finset Matrix

namespace Simplex

namespace Program

/-- The coefficients of a row. -/
def rowVector (program : Program Rat) (i : Nat) : Fin program.numColumns → Rat :=
  fun j => program.coefficient i j

/-- The coefficients of a row together with its right side. -/
def equation (program : Program Rat) (i : Nat) : (Fin program.numColumns → Rat) × Rat :=
  (program.rowVector i, program.rightSide i)

/-- The coefficients of all rows. -/
def coefficients (program : Program Rat) :
    Matrix (Fin program.rows.length) (Fin program.numColumns) Rat :=
  .of fun i => program.rowVector i

variable {program : Program Rat} {rows basis : List Nat}

/-! ### Rows that follow from others -/

/-- A linear function of equations is a left side at its values on the columns, and a multiple of
the right side. -/
theorem map_equation (f : Module.Dual Rat ((Fin program.numColumns → Rat) × Rat)) :
    ∃ u : Nat → Rat, ∀ i,
      f (program.equation i) = program.leftSide u i + f (0, 1) * program.rightSide i := by
  refine ⟨fun j => if small : j < program.numColumns then f (Pi.single ⟨j, small⟩ 1, 0) else 0,
    fun i => ?_⟩
  have parts : program.equation i = (program.rowVector i, 0) +
      program.rightSide i • ((0, 1) : (Fin program.numColumns → Rat) × Rat) := by
    simp [equation]
  rw [parts, map_add, map_smul, smul_eq_mul, mul_comm (program.rightSide i)]
  congr 1
  -- On the coefficients the function adds up its values on the unit vectors.
  have columns := LinearMap.pi_apply_eq_sum_univ (f ∘ₗ LinearMap.inl Rat _ Rat)
    (program.rowVector i)
  rw [leftSide, ← Fin.sum_univ_eq_sum_range (fun j => program.coefficient i j *
    if small : j < program.numColumns then f (Pi.single ⟨j, small⟩ 1, 0) else 0)]
  refine columns.trans (sum_congr rfl fun j _ => ?_)
  have unit : (fun k => if j = k then (1 : Rat) else 0) = Pi.single j 1 := by
    funext k
    simp [Pi.single_apply, eq_comm]
  simp [unit, rowVector]

/-- Where the given rows can be solved, an implied row is a combination of them. -/
theorem Implied.mem_span (implied : program.Implied rows) {x : Nat → Rat}
    (solves : program.Solves rows x) {i : Nat} (row : i < program.rows.length) :
    program.equation i ∈ Submodule.span Rat (program.equation '' {r | r ∈ rows}) := by
  by_contra outside
  -- Otherwise some linear function vanishes on the given equations, but not on this one.
  obtain ⟨f, nonzero, zero⟩ := Submodule.exists_dual_map_eq_bot_of_notMem outside inferInstance
  obtain ⟨u, value⟩ := map_equation f
  -- Moving the solution as the function says changes each row by the value of its equation.
  have moved (r : Nat) (solved : program.leftSide x r = program.rightSide r) :
      program.leftSide (fun j => x j + 1 * (u j + f (0, 1) * x j)) r =
        program.rightSide r + f (program.equation r) := by
    rw [leftSide_add_mul, leftSide_add_mul, solved, value r, one_mul]
  have kept : program.Solves rows (fun j => x j + 1 * (u j + f (0, 1) * x j)) := by
    intro r member
    have level : f (program.equation r) = 0 := by
      rw [← Submodule.mem_bot Rat, ← zero]
      exact Submodule.mem_map_of_mem (Submodule.subset_span ⟨r, member, rfl⟩)
    rw [moved r (solves r member), level, add_zero]
  have solved := implied _ kept i row
  rw [moved i (implied x solves i row), add_eq_left] at solved
  exact nonzero solved

/-! ### Independent rows -/

/-- The rows of a nonsingular basis are independent. -/
theorem IsBasis.linearIndepOn_rows (valid : (program.restrict rows).IsBasis basis)
    (nonsingular : IsUnit ((program.restrict rows).matrix basis)) (distinct : rows.Nodup) :
    LinearIndepOn Rat program.rowVector {r | r ∈ rows} := by
  have injective := List.nodup_iff_injective_get.mp distinct
  rw [← Set.range_list_get, linearIndepOn_range_iff injective]
  have height : rows.length = (program.restrict rows).rows.length :=
    (length_restrict program rows).symm
  -- The rows of the matrix are the given ones, read at the basic columns only.
  have basic (l : Fin (program.restrict rows).rows.length) :
      basis.getD l 0 < program.numColumns := by
    have small : (l : Nat) < basis.length := valid.length.symm ▸ l.isLt
    rw [List.getD_eq_getElem _ _ small]
    exact valid.columns _ (List.getElem_mem small)
  have same : (LinearMap.funLeft Rat Rat fun l => ⟨_, basic l⟩) ∘ program.rowVector ∘ rows.get =
      ((program.restrict rows).matrix basis).row ∘ Fin.cast height := by
    funext k l
    have entry := valid.toMatrix_apply (Fin.cast height k) l
    rw [coefficient_restrict (by simp)] at entry
    exact (Eq.trans entry (by simp [rowVector])).symm
  refine LinearIndependent.of_comp (LinearMap.funLeft Rat Rat fun l => ⟨_, basic l⟩) ?_
  rw [same]
  exact (linearIndependent_rows_iff_isUnit.mpr nonsingular).comp _ (Fin.cast_injective height)

theorem range_row_coefficients (program : Program Rat) :
    Set.range program.coefficients.row = program.rowVector '' {i | i < program.rows.length} := by
  ext v
  constructor
  · rintro ⟨i, rfl⟩
    exact ⟨i, i.isLt, rfl⟩
  · rintro ⟨i, row, rfl⟩
    exact ⟨⟨i, row⟩, rfl⟩

/-- Independent rows of which all others are combinations are as many as the rank. -/
theorem rank_coefficients (distinct : rows.Nodup) (inside : ∀ r ∈ rows, r < program.rows.length)
    (independent : LinearIndepOn Rat program.rowVector {r | r ∈ rows})
    (spanned : ∀ i < program.rows.length,
      program.rowVector i ∈ Submodule.span Rat (program.rowVector '' {r | r ∈ rows})) :
    program.coefficients.rank = rows.length := by
  have injective := List.nodup_iff_injective_get.mp distinct
  -- The other rows add nothing to the span of the given ones.
  have same : Submodule.span Rat (program.rowVector '' {i | i < program.rows.length}) =
      Submodule.span Rat (program.rowVector '' {r | r ∈ rows}) := by
    refine le_antisymm (Submodule.span_le.mpr ?_) (Submodule.span_mono ?_)
    · rintro _ ⟨i, row, rfl⟩
      exact spanned i row
    · exact Set.image_mono inside
  rw [← Set.range_list_get, linearIndepOn_range_iff injective] at independent
  rw [Matrix.rank_eq_finrank_span_row, range_row_coefficients, same, ← Set.range_list_get,
    ← Set.range_comp, finrank_span_eq_card independent, Fintype.card_fin]

end Program

end Simplex

namespace Solver

open Simplex

variable {solver : Solver Rat} {problem : Problem Rat ExtendedRat}

/-- The rows that phase one keeps are a basis of all rows: with its right side every row that it
drops is a combination of them, and they are independent. So there are as many as the rank of the
coefficients, and they have the same solutions as all rows. -/
theorem kept_rows_basis (exact : solver.tolerance = 0) (standard : problem.isStandardForm = true)
    {basis rows : List Nat} {iterations : Nat}
    (feasible : (phaseOne solver (Program.ofProblem problem)).result =
      .ok (.feasible basis rows iterations)) :
    rows.Sublist (List.range problem.numConstraints) ∧
      (∀ r < problem.numConstraints, r ∉ rows → (Program.ofProblem problem).equation r ∈
        Submodule.span Rat ((Program.ofProblem problem).equation '' {r | r ∈ rows})) ∧
      LinearIndepOn Rat (Program.ofProblem problem).rowVector {r | r ∈ rows} ∧
      rows.length = (Program.ofProblem problem).coefficients.rank ∧
      (∀ x, (Program.ofProblem problem).Solves rows x ↔
        (Program.ofProblem problem).Solves (List.range problem.numConstraints) x) ∧
      ∀ solution, (solver.solveStandard problem).result = .ok (.optimal solution) →
        solution.droppedRows = (List.range problem.numConstraints).filter (!rows.contains ·) := by
  have height : (Program.ofProblem problem).rows.length = problem.numConstraints :=
    Problem.length_rows_ofProblem problem
  obtain ⟨inside, implied, valid, x, point⟩ := phaseTwo_start exact standard feasible
  obtain ⟨_, _, kept⟩ := phaseOne_isBasis feasible
  have distinct := List.nodup_range.sublist kept
  have solves := (Program.feasible_restrict.mp point.toFeasible).2
  have combined (i : Nat) (row : i < (Program.ofProblem problem).rows.length) :=
    implied.mem_span solves row
  have evaluates : Evaluates solver (Program.ofProblem problem) _ basis :=
    .phaseTwo feasible .refl
  have nonsingular := valid.isUnit (evaluates.independent exact.ge)
  have independent := valid.linearIndepOn_rows nonsingular distinct
  refine ⟨height ▸ kept, fun r row _ => combined r (height ▸ row), independent, ?_, ?_, ?_⟩
  · refine (Program.rank_coefficients distinct inside independent fun i row => ?_).symm
    -- Without their right sides the rows are the same combinations.
    have projected := Submodule.mem_map_of_mem (f := LinearMap.fst Rat _ Rat) (combined i row)
    rwa [Submodule.map_span, ← Set.image_comp] at projected
  · intro x
    constructor
    · exact fun solves r member => implied x solves r (height ▸ List.mem_range.mp member)
    · exact fun solves r member => solves r (List.mem_range.mpr (height ▸ inside r member))
  · intro solution returned
    obtain ⟨_, _, _, _, _, first, _, _, dropped⟩ := solveStandard_optimal returned
    cases first.symm.trans feasible
    exact dropped

/-- The second row is twice the first, and the last one is the sum of the first and the third. -/
def dependent : Problem Rat ExtendedRat where
  names := ["x", "y", "z"]
  objective := ⟨[1, 1, 0], .minimize⟩
  constraints := [⟨"a", [1, 1, 0], .eq, 1⟩, ⟨"b", [2, 2, 0], .eq, 2⟩, ⟨"c", [0, 1, 1], .eq, 1⟩,
    ⟨"d", [1, 2, 1], .eq, 2⟩]
  bounds := [.nonNegative, .nonNegative, .nonNegative]

theorem kept_rows_basis_dependent :
    dependent.isStandardForm = true ∧
      (phaseOne ⟨10, 0, .dantzig⟩ (Program.ofProblem dependent)).result =
        .ok (.feasible [1, 2] [0, 2] 2) ∧
      (∀ r ∈ [1, 3], (Program.ofProblem dependent).equation r ∈
        Submodule.span Rat ((Program.ofProblem dependent).equation '' {r | r ∈ [0, 2]})) ∧
      (Program.ofProblem dependent).coefficients.rank = 2 := by
  have standard : dependent.isStandardForm = true := by decide +kernel
  have feasible : (phaseOne ⟨10, 0, .dantzig⟩ (Program.ofProblem dependent)).result =
      .ok (.feasible [1, 2] [0, 2] 2) := by with_unfolding_all rfl
  obtain ⟨_, combined, _, rank, _⟩ := kept_rows_basis rfl standard feasible
  refine ⟨standard, feasible, fun r dropped => ?_, rank.symm⟩
  have apart : r < 4 ∧ r ∉ [0, 2] := by
    fin_cases dropped <;> decide
  exact combined r apart.1 apart.2

end Solver

end LinOpt
