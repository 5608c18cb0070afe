import LinOpt.Proofs.Solver.Phases

/-!
# The bases that a solve evaluates

A solve inverts the matrix of one basis after the other: in phase one those of the auxiliary
program, while artificial columns leave those on the rows that remain, and in phase two those of the
program without the rows that were dropped. All of them have one column for each row and no column
twice, whatever the numbers are, and a solve that stops at a singular basis has come to one of them.
-/

namespace LinOpt

namespace Simplex

variable {α : Type} [Scalar α]

/-- The bases whose matrices are inverted, each with its program: those that the run of phase one
visits from the artificial columns, those at which an artificial column is found in the removal, and
those that the run of phase two visits from what is left. A run may stop at its limit before it has
come to all of them. -/
inductive Evaluates (solver : Solver α) (program : Program α) : Program α → List Nat → Prop
  | phaseOne {basis : List Nat}
      (visited : Visited solver.pricing solver.tolerance program.auxiliary
        (List.range program.rows.length) basis) :
      Evaluates solver program program.auxiliary basis
  | removal {last : List Nat} {values : List α} {iterations : Nat} {state : Remaining}
      (ended : (run solver program.auxiliary .one (List.range program.rows.length)).result =
        .ok (.optimal last values iterations))
      (rounds : Rounds solver.tolerance program.auxiliary program.rows.length
        ⟨List.range program.rows.length, last⟩ state)
      (artificial : ∃ j ∈ state.basis, j < program.rows.length) :
      Evaluates solver program (program.auxiliary.restrict state.rows) state.basis
  | phaseTwo {start rows : List Nat} {iterations : Nat} {basis : List Nat}
      (feasible : (Simplex.phaseOne solver program).result =
        .ok (.feasible start rows iterations))
      (visited : Visited solver.pricing solver.tolerance (program.restrict rows) start basis) :
      Evaluates solver program (program.restrict rows) basis

/-- The bases that the removal of artificial columns inverts, if phase one comes to it. -/
def removalBases (solver : Solver α) (program : Program α) : List (Program α × List Nat) :=
  match (run solver program.auxiliary .one (List.range program.rows.length)).result with
  | .error _ | .ok (.unbounded _ _ _) => []
  | .ok (.optimal last values _) =>
    if infeasibilityLimit solver.tolerance program.rhs <
        Scalar.sum (values.take program.rows.length) then []
    else
      (removalsFrom solver.tolerance program.auxiliary program.rows.length
        (List.range program.rows.length) [] last).map fun state =>
          (program.auxiliary.restrict state.rows, state.basis)

/-- The bases that phase two evaluates, if phase one finds where to start. -/
def phaseTwoBases (solver : Solver α) (program : Program α) : List (Program α × List Nat) :=
  match (phaseOne solver program).result with
  | .error _ | .ok .infeasible | .ok (.unbounded _) => []
  | .ok (.feasible start rows _) =>
    (bases solver (program.restrict rows) start).map (program.restrict rows, ·)

/-- The bases that a solve inverts, each with its program, in their order. -/
def inversions (solver : Solver α) (program : Program α) : List (Program α × List Nat) :=
  (bases solver program.auxiliary (List.range program.rows.length)).map (program.auxiliary, ·) ++
    removalBases solver program ++ phaseTwoBases solver program

variable {solver : Solver α} {program evaluated : Program α} {basis : List Nat}

/-- What holds of the evaluated bases holds of every basis that a solve inverts. -/
theorem evaluates_of_mem (member : (evaluated, basis) ∈ inversions solver program) :
    Evaluates solver program evaluated basis := by
  simp only [inversions, List.mem_append] at member
  rcases member with (first | removal) | second
  · obtain ⟨basis, listed, same⟩ := List.mem_map.mp first
    cases same
    exact .phaseOne (visited_of_mem listed)
  · unfold removalBases at removal
    split at removal
    · cases removal
    · cases removal
    next last values iterations ended =>
      split at removal
      · cases removal
      · obtain ⟨state, listed, same⟩ := List.mem_map.mp removal
        cases same
        obtain ⟨rounds, artificial⟩ := rounds_of_mem (by simp) listed
        exact .removal ended rounds artificial
  · unfold phaseTwoBases at second
    split at second
    · cases second
    · cases second
    · cases second
    next start rows iterations feasible =>
      obtain ⟨basis, listed, same⟩ := List.mem_map.mp second
      cases same
      exact .phaseTwo feasible (visited_of_mem listed)

/-- Every basis that is evaluated has one column for each row, and no column twice. -/
theorem Evaluates.isBasis (evaluates : Evaluates solver program evaluated basis) :
    evaluated.IsBasis basis ∧ basis.Nodup := by
  cases evaluates with
  | phaseOne visited =>
    exact visited.isBasis (Program.isBasis_start program) List.nodup_range
  | removal ended rounds _ =>
    have sound := Rounds.sound rounds (removal_start ended)
    exact ⟨sound.isBasis, sound.distinct⟩
  | phaseTwo feasible visited =>
    obtain ⟨valid, distinct, _⟩ := phaseOne_isBasis feasible
    exact visited.isBasis valid distinct

end Simplex

namespace Solver

open Simplex

variable {α β : Type} [Scalar α] [Endpoint β α] {solver : Solver α} {problem : Problem α β}

/-- Phase one fails at a basis without an inverse or at its limit: an artificial column that is
still basic has its row. -/
theorem phaseOne_failure {program : Program α} {reason : Failure}
    (failed : (phaseOne solver program).result = .error reason) :
    (∃ iteration evaluated basis, reason = .singularBasis .one iteration ∧
        (evaluated, basis) ∈ inversions solver program ∧
        Dense.invert (evaluated.basisMatrix basis) = none) ∨
      reason = .iterationLimit .one solver.maxIterations := by
  rcases phaseOne_error failed with stopped | ⟨last, values, iterations, ended, zero, removal⟩
  · rcases run_error stopped with ⟨last, member, iteration, singular, rfl⟩ | limit
    · have listed : (program.auxiliary, last) ∈ inversions solver program := by
        simp [inversions, member]
      exact Or.inl ⟨iteration, _, last, rfl, listed, singular⟩
    · exact Or.inr limit
  · obtain ⟨state, member, ⟨rfl, singular⟩ | ⟨column, basic, artificial, _, gone⟩⟩ :=
      removeArtificials_error removal
    · have listed : (program.auxiliary.restrict state.rows, state.basis) ∈
          removalBases solver program := by
        simp only [removalBases, ended, if_neg zero]
        exact List.mem_map.mpr ⟨state, member, rfl⟩
      exact Or.inl ⟨iterations, _, _, rfl,
        List.mem_append_left _ (List.mem_append_right _ listed), singular⟩
    · -- A row only goes together with its artificial column.
      have sound := (rounds_of_mem (by simp) member).1.sound (removal_start ended)
      exact absurd (sound.rowOf column basic artificial) gone

/-- A solve that fails after both checks has come to a basis without an inverse, or to the limit of
a phase. -/
theorem solveStandard_failure {reason : Failure}
    (failed : (solver.solveStandard problem).result = .error (.failure reason)) :
    (∃ phase iteration evaluated basis, reason = .singularBasis phase iteration ∧
        (evaluated, basis) ∈ inversions solver (Program.ofProblem problem) ∧
        Dense.invert (evaluated.basisMatrix basis) = none) ∨
      ∃ phase, reason = .iterationLimit phase solver.maxIterations := by
  obtain ⟨_, _, first | ⟨start, rows, iterations, feasible, second⟩⟩ := solveStandard_error failed
  · rcases phaseOne_failure first with ⟨iteration, evaluated, basis, rest⟩ | limit
    · exact Or.inl ⟨.one, iteration, evaluated, basis, rest⟩
    · exact Or.inr ⟨.one, limit⟩
  · rcases run_error second with ⟨last, member, iteration, singular, rfl⟩ | limit
    · have listed : ((Program.ofProblem problem).restrict rows, last) ∈
          phaseTwoBases solver (Program.ofProblem problem) := by
        simp only [phaseTwoBases, feasible]
        exact List.mem_map_of_mem member
      exact Or.inl ⟨.two, iteration, _, last, rfl, List.mem_append_right _ listed, singular⟩
    · exact Or.inr ⟨.two, limit⟩

end Solver

end LinOpt
