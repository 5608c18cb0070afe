import LinOpt.Proofs.Dense.Pivots
import LinOpt.Proofs.Simplex.Independence
import LinOpt.Proofs.Solver.Evaluations

/-!
# Nonsingular bases

With a tolerance that is not negative every exchange happens at an entry other than zero. So over
the rational numbers all bases that a solve evaluates are nonsingular, and it only stops at a
singular basis because elimination takes a small pivot for zero.
-/

namespace LinOpt

namespace Simplex

variable {solver : Solver Rat} {program evaluated : Program Rat} {basis : List Nat}

/-- The columns of every basis that is evaluated are independent. -/
theorem Evaluates.independent (evaluates : Evaluates solver program evaluated basis)
    (nonneg : 0 ≤ solver.tolerance) : evaluated.Independent basis := by
  -- The end of phase one on all rows is where the removal starts.
  have optimum {last : List Nat} {values : List Rat} {iterations : Nat}
      (ended : (run solver program.auxiliary .one (List.range program.rows.length)).result =
        .ok (.optimal last values iterations)) :
      (program.auxiliary.restrict (List.range program.rows.length)).Independent last := by
    obtain ⟨distinct, trivial⟩ := Visited.independent (run_optimal_visited ended).1 nonneg
      (Program.isBasis_start program) program.independent_start
    refine Program.independent_restrict.mpr ⟨distinct, fun x support level => ?_⟩
    refine trivial x support fun i row => level i ?_
    rw [Program.length_auxiliary] at row
    exact List.mem_range.mpr row
  cases evaluates with
  | phaseOne visited =>
    exact visited.independent nonneg (Program.isBasis_start program) program.independent_start
  | removal ended rounds _ =>
    exact rounds.independent nonneg (removal_start ended) (optimum ended)
  | phaseTwo feasible visited =>
    -- The basis that is left without artificial columns is where phase two starts.
    obtain ⟨valid, _, _⟩ := phaseOne_isBasis feasible
    obtain ⟨_, _, _, _, ended, rounds, done, rfl⟩ := phaseOne_rounds feasible
    have sound := Rounds.sound rounds (removal_start ended)
    have left := rounds.independent nonneg (removal_start ended) (optimum ended)
    exact visited.independent nonneg valid (sound.independent done left)

/-- The matrix of every basis that is evaluated is square and nonsingular. -/
theorem Evaluates.nonsingular (evaluates : Evaluates solver program evaluated basis)
    (nonneg : 0 ≤ solver.tolerance) :
    (∀ row ∈ evaluated.basisMatrix basis,
        row.length = (evaluated.basisMatrix basis).length) ∧
      IsUnit (Dense.toMatrix (evaluated.basisMatrix basis).length
        (evaluated.basisMatrix basis)) := by
  have valid := evaluates.isBasis.1
  rw [Program.length_basisMatrix]
  exact ⟨valid.square, valid.isUnit (evaluates.independent nonneg)⟩

end Simplex

namespace Solver

open Simplex

variable {solver : Solver Rat}

theorem singularThreshold_eq : (Dense.singularThreshold : Rat) = 1 / 10 ^ 12 := by
  show ((1 : Nat) : Rat) * 10 ^ (-12 : Int) = 1 / 10 ^ 12
  norm_num

/-- The bases that a solve inverts are evaluated ones, and the matrix of each evaluated basis is
square and nonsingular, in both phases and in the removal of artificial columns between them. When
the solve stops at a singular basis, elimination has met a pivot that is not zero, but below the
threshold. -/
theorem evaluated_bases_nonsingular (nonneg : 0 ≤ solver.tolerance)
    (problem : Problem Rat ExtendedRat) :
    (∀ evaluated basis, (evaluated, basis) ∈ inversions solver (Program.ofProblem problem) →
      Evaluates solver (Program.ofProblem problem) evaluated basis) ∧
    (∀ evaluated basis, Evaluates solver (Program.ofProblem problem) evaluated basis →
      (∀ row ∈ evaluated.basisMatrix basis,
          row.length = (evaluated.basisMatrix basis).length) ∧
        IsUnit (Dense.toMatrix (evaluated.basisMatrix basis).length
          (evaluated.basisMatrix basis))) ∧
    ∀ phase iteration, (solver.solveStandard problem).result =
        .error (.failure (.singularBasis phase iteration)) →
      ∃ evaluated basis, (evaluated, basis) ∈ inversions solver (Program.ofProblem problem) ∧
        Dense.invert (evaluated.basisMatrix basis) = none ∧
        ∃ rows j pivot, Dense.MeetsPivot (evaluated.basisMatrix basis) rows j pivot ∧
          0 < |pivot| ∧ |pivot| < 1 / 10 ^ 12 := by
  refine ⟨fun evaluated basis => evaluates_of_mem,
    fun evaluated basis evaluates => evaluates.nonsingular nonneg, ?_⟩
  intro phase iteration failed
  -- The basis without an inverse is nonsingular all the same, so it is the threshold that failed.
  rcases solveStandard_failure failed with
    ⟨_, _, evaluated, basis, _, member, singular⟩ | ⟨_, other⟩
  · obtain ⟨square, unit⟩ := (evaluates_of_mem member).nonsingular nonneg
    obtain ⟨rows, j, pivot, meets, nonzero, small⟩ :=
      Dense.invert_none_nonsingular square unit singular
    exact ⟨evaluated, basis, member, singular, rows, j, pivot, meets, nonzero,
      small.trans_eq singularThreshold_eq⟩
  · cases other

/-- The second row is twice the first, so its artificial column stays in the basis until the row is
dropped. -/
def redundant : Problem Rat ExtendedRat where
  names := ["x", "y", "z"]
  objective := ⟨[1, 1, 0], .minimize⟩
  constraints := [⟨"a", [1, 1, 0], .eq, 1⟩, ⟨"b", [2, 2, 0], .eq, 2⟩, ⟨"c", [0, 1, 1], .eq, 1⟩]
  bounds := [.nonNegative, .nonNegative, .nonNegative]

/-- The only coefficient is smaller than the pivots that count. -/
def faint : Problem Rat ExtendedRat where
  names := ["x"]
  objective := ⟨[1], .minimize⟩
  constraints := [⟨"a", [1 / 10 ^ 13], .eq, 1⟩]
  bounds := [.nonNegative]

theorem evaluated_bases_nonsingular_redundant :
    0 ≤ (1 / 10 ^ 9 : Rat) ∧
      IsUnit (Dense.toMatrix 3 (((Program.ofProblem redundant).auxiliary.restrict
        [0, 1, 2]).basisMatrix [4, 1, 5])) ∧
      IsUnit (Dense.toMatrix 2 (((Program.ofProblem redundant).restrict
        [0, 2]).basisMatrix [1, 2])) ∧
      (Solver.solveStandard ⟨10, 0, .bland⟩ faint).result =
        .error (.failure (.singularBasis .one 1)) ∧
      ∃ evaluated basis, (evaluated, basis) ∈ inversions ⟨10, 0, .bland⟩ (Program.ofProblem faint) ∧
        Dense.invert (evaluated.basisMatrix basis) = none ∧
        ∃ rows j pivot, Dense.MeetsPivot (evaluated.basisMatrix basis) rows j pivot ∧
          0 < |pivot| ∧ |pivot| < 1 / 10 ^ 12 := by
  have nonneg : 0 ≤ (1 / 10 ^ 9 : Rat) := by norm_num
  have ended : (run ⟨10, 1 / 10 ^ 9, .dantzig⟩ (Program.ofProblem redundant).auxiliary .one
      (List.range 3)).result = .ok (.optimal [4, 1, 5] [0, 0, 0, 0, 1, 0] 2) := by
    with_unfolding_all rfl
  have feasible : (phaseOne ⟨10, 1 / 10 ^ 9, .dantzig⟩ (Program.ofProblem redundant)).result =
      .ok (.feasible [1, 2] [0, 2] 2) := by with_unfolding_all rfl
  have stopped : (Solver.solveStandard ⟨10, 0, .bland⟩ faint).result =
      .error (.failure (.singularBasis .one 1)) := by with_unfolding_all rfl
  obtain ⟨_, all, _⟩ := @evaluated_bases_nonsingular ⟨10, 1 / 10 ^ 9, .dantzig⟩ nonneg redundant
  obtain ⟨_, _, small⟩ := @evaluated_bases_nonsingular ⟨10, 0, .bland⟩ le_rfl faint
  exact ⟨nonneg, (all _ _ (.removal ended .refl ⟨1, by decide, by decide⟩)).2,
    (all _ _ (.phaseTwo feasible .refl)).2, stopped, small _ _ stopped⟩

end Solver

end LinOpt
