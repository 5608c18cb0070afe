import Mathlib.Data.Finset.Powerset
import Mathlib.Data.List.Chain
import LinOpt.Proofs.Simplex.Bland
import LinOpt.Proofs.Solver.Phases

/-!
# Termination under Bland's rule

Under Bland's rule in exact arithmetic the bases that a run evaluates have pairwise different sets
of columns. A run that has to stop at its limit asks for a pivot at each of them, one time more
often than the limit allows, so the limit is smaller than the number of such sets.
-/

namespace LinOpt

namespace Simplex

open Finset Relation

variable {program : Program Rat} {start basis : List Nat} {x : Nat → Rat}

/-- Under Bland's rule no later basis of a run has the columns of an earlier one. -/
theorem bland_never_returns (valid : program.IsBasis start) (point : program.BasicPoint start x)
    {earlier later : List Nat} (visited : Visited .bland 0 program start earlier)
    (after : TransGen (Pivots .bland 0 program) earlier later) :
    earlier.toFinset ≠ later.toFinset := by
  intro same
  obtain ⟨next, leaves, returns⟩ := TransGen.head'_iff.mp after
  obtain ⟨valid, y, point, _⟩ := Visited.basicPoint visited valid point
  have cycle : Cycle program earlier next later :=
    ⟨leaves, returns, fun j => by rw [← List.mem_toFinset, ← same, List.mem_toFinset]⟩
  exact cycle.false valid point

/-- A basis that is pivoted has as many columns as the program has rows. -/
theorem pivoted_columns (valid : program.IsBasis start) (point : program.BasicPoint start x)
    (visited : Visited .bland 0 program start basis)
    (pivoted : ∃ next, Pivots .bland 0 program basis next) :
    basis.toFinset ∈ (range program.numColumns).powersetCard program.rows.length := by
  obtain ⟨valid, y, point, _⟩ := Visited.basicPoint visited valid point
  obtain ⟨next, pivots⟩ := pivoted
  obtain ⟨_, _, _, _, _, distinct, _⟩ := pivots.parts valid point
  refine mem_powersetCard.mpr ⟨fun j member => ?_, ?_⟩
  · exact mem_range.mpr (valid.columns j (List.mem_toFinset.mp member))
  · rw [List.toFinset_card_of_nodup distinct, valid.length]

section Bland

variable {solver : Solver Rat}

/-- Under Bland's rule the bases that a run evaluates have pairwise different sets of columns. -/
theorem bases_bland_nodup (exact : solver.tolerance = 0) (bland : solver.pricing = .bland)
    (valid : program.IsBasis start) (point : program.BasicPoint start x) :
    ((bases solver program start).map List.toFinset).Nodup := by
  -- Along the chain every basis comes later than all those before it.
  have ordered : (bases solver program start).Pairwise
      (TransGen (Pivots solver.pricing solver.tolerance program)) :=
    List.isChain_iff_pairwise.mp (isChain_basesFrom.imp fun _ _ => .single)
  rw [List.Nodup, List.pairwise_map]
  refine ordered.imp_of_mem fun first _ after => ?_
  have visited := visited_of_mem first
  rw [exact, bland] at visited after
  exact bland_never_returns valid point visited after

/-- With a limit of at least the number of sets of basic columns, Bland's rule comes to an end. -/
theorem run_bland_ends (exact : solver.tolerance = 0)
    (bland : solver.pricing = .bland) (valid : program.IsBasis start)
    (point : program.BasicPoint start x)
    (room : program.numColumns.choose program.rows.length ≤ solver.maxIterations)
    (phase phase' : Phase) (limit : Nat) :
    (run solver program phase start).result ≠ .error (.iterationLimit phase' limit) := by
  intro stopped
  obtain ⟨length, pivoted⟩ := run_limit stopped
  have inside : ((bases solver program start).map List.toFinset).toFinset ⊆
      (range program.numColumns).powersetCard program.rows.length := by
    intro columns member
    obtain ⟨b, listed, rfl⟩ := List.mem_map.mp (List.mem_toFinset.mp member)
    have visited := visited_of_mem listed
    have asks := pivoted b listed
    rw [exact, bland] at visited asks
    exact pivoted_columns valid point visited asks
  -- There is one basis more than the limit, which is too many different sets of columns.
  have few := card_le_card inside
  rw [List.toFinset_card_of_nodup (bases_bland_nodup exact bland valid point), card_powersetCard,
    card_range, List.length_map, length] at few
  omega

end Bland

end Simplex

/-! ### Both phases -/

namespace Solver

open Simplex

variable {solver : Solver Rat} {problem : Problem Rat ExtendedRat}

/-- The search for a feasible basis does not run into its limit. -/
theorem phaseOne_bland_ends (exact : solver.tolerance = 0) (bland : solver.pricing = .bland)
    (standard : problem.isStandardForm = true) (rectangular : problem.Rectangular)
    (room : (problem.numConstraints + problem.numVariables).choose problem.numConstraints ≤
      solver.maxIterations) (phase : Phase) (limit : Nat) :
    (phaseOne solver (Program.ofProblem problem)).result ≠
      .error (.iterationLimit phase limit) := by
  intro failed
  rcases phaseOne_error failed with stopped | ⟨_, _, _, _, _, removal⟩
  · obtain ⟨valid, point⟩ := Program.start_basic (Problem.length_rhs_ofProblem problem)
      (Problem.isStandardForm_rhs standard)
    refine run_bland_ends exact bland valid point ?_ _ _ _ stopped
    rw [Program.numColumns_auxiliary, Program.length_auxiliary, rectangular.numColumns,
      Problem.length_rows_ofProblem]
    exact room
  · obtain ⟨_, _, ⟨other, _⟩ | ⟨_, _, _, other, _⟩⟩ := removeArtificials_error removal
    · cases other
    · cases other

/-- The optimization from a feasible basis does not run into its limit. -/
theorem phaseTwo_bland_ends (exact : solver.tolerance = 0) (bland : solver.pricing = .bland)
    (standard : problem.isStandardForm = true) (rectangular : problem.Rectangular)
    {basis rows : List Nat} {iterations : Nat}
    (feasible : (phaseOne solver (Program.ofProblem problem)).result =
      .ok (.feasible basis rows iterations))
    (room : problem.numVariables.choose rows.length ≤ solver.maxIterations)
    (phase : Phase) (limit : Nat) :
    (run solver ((Program.ofProblem problem).restrict rows) .two basis).result ≠
      .error (.iterationLimit phase limit) := by
  obtain ⟨_, _, valid, x, point⟩ := phaseTwo_start exact standard feasible
  refine run_bland_ends exact bland valid point ?_ _ _ _
  have wide : ((Program.ofProblem problem).restrict rows).numColumns = problem.numVariables :=
    rectangular.numColumns
  rwa [Program.length_restrict, wide]

/-- A run under Bland's rule evaluates no set of basic columns twice, from any feasible basis of any
program and however many pivots it makes. So it ends before its limit if the limit is at least the
number of sets that can be basic, and this holds for the runs of both phases. -/
theorem bland_terminates (exact : solver.tolerance = 0) (bland : solver.pricing = .bland) :
    (∀ (program : Program Rat) (start : List Nat) (x : Nat → Rat), program.IsBasis start →
      program.BasicPoint start x →
        (∀ earlier later, Visited solver.pricing solver.tolerance program start earlier →
          Relation.TransGen (Pivots solver.pricing solver.tolerance program) earlier later →
            earlier.toFinset ≠ later.toFinset) ∧
        (∀ basis ∈ bases solver program start,
          Visited solver.pricing solver.tolerance program start basis) ∧
        ((bases solver program start).map List.toFinset).Nodup ∧
        (program.numColumns.choose program.rows.length ≤ solver.maxIterations →
          ∀ phase phase' limit, (run solver program phase start).result ≠
            .error (.iterationLimit phase' limit))) ∧
    ∀ problem : Problem Rat ExtendedRat,
      ((problem.numConstraints + problem.numVariables).choose problem.numConstraints ≤
          solver.maxIterations →
        ∀ limit, (solver.solveStandard problem).result ≠
          .error (.failure (.iterationLimit .one limit))) ∧
      ∀ basis rows iterations, (phaseOne solver (Program.ofProblem problem)).result =
          .ok (.feasible basis rows iterations) →
        problem.numVariables.choose rows.length ≤ solver.maxIterations →
          ∀ limit, (solver.solveStandard problem).result ≠
            .error (.failure (.iterationLimit .two limit)) := by
  constructor
  · intro program start x valid point
    refine ⟨fun earlier later visited after => ?_, fun basis => visited_of_mem,
      bases_bland_nodup exact bland valid point, run_bland_ends exact bland valid point⟩
    rw [exact, bland] at visited after
    exact bland_never_returns valid point visited after
  · intro problem
    constructor
    · intro room limit failed
      obtain ⟨rectangular, standard, first | ⟨_, _, _, _, second⟩⟩ := solveStandard_error failed
      · exact phaseOne_bland_ends exact bland standard rectangular room _ _ first
      · -- Phase two only reports a limit as its own.
        rcases run_error second with ⟨_, _, _, _, other⟩ | other <;> cases other
    · intro basis rows iterations feasible room limit failed
      obtain ⟨rectangular, standard, first | ⟨basis', rows', iterations', first, second⟩⟩ :=
        solveStandard_error failed
      · rw [feasible] at first
        cases first
      · rw [feasible] at first
        cases first
        exact phaseTwo_bland_ends exact bland standard rectangular feasible room _ _ second

/-- Beale's problem, on which a largest reduced cost with the lowest row in a tie goes round in
circles. -/
def beale : Problem Rat ExtendedRat where
  names := ["a", "b", "c", "x", "y", "z", "w"]
  objective := ⟨[0, 0, 0, -3 / 4, 20, -1 / 2, 6], .minimize⟩
  constraints := [⟨"p", [1, 0, 0, 1 / 4, -8, -1, 9], .eq, 0⟩,
    ⟨"q", [0, 1, 0, 1 / 2, -12, -1 / 2, 3], .eq, 0⟩, ⟨"r", [0, 0, 1, 0, 0, 1, 0], .eq, 1⟩]
  bounds := List.replicate 7 .nonNegative

theorem beale_start : (Program.ofProblem beale).IsBasis [0, 1, 2] ∧
    (Program.ofProblem beale).BasicPoint [0, 1, 2] fun j => if j = 2 then 1 else 0 := by
  refine ⟨⟨rfl, by decide⟩, ⟨fun j => ?_, fun i row => ?_⟩, fun j outside => ?_⟩
  · split
    · exact zero_le_one
    · exact le_rfl
  · have rows : i = 0 ∨ i = 1 ∨ i = 2 := by
      have small : i < 3 := row
      omega
    rcases rows with rfl | rfl | rfl <;> with_unfolding_all rfl
  · rw [if_neg]
    rintro rfl
    exact outside (by decide)

theorem bland_terminates_beale :
    (∀ earlier later, Visited .bland 0 (Program.ofProblem beale) [0, 1, 2] earlier →
        Relation.TransGen (Pivots .bland 0 (Program.ofProblem beale)) earlier later →
          earlier.toFinset ≠ later.toFinset) ∧
      ((bases ⟨35, 0, .bland⟩ (Program.ofProblem beale) [0, 1, 2]).map List.toFinset).Nodup ∧
      (∀ phase phase' limit,
        (run ⟨35, 0, .bland⟩ (Program.ofProblem beale) phase [0, 1, 2]).result ≠
          .error (.iterationLimit phase' limit)) ∧
      (∀ limit, (Solver.solveStandard ⟨120, 0, .bland⟩ beale).result ≠
        .error (.failure (.iterationLimit .one limit))) ∧
      (phaseOne ⟨35, 0, .bland⟩ (Program.ofProblem beale)).result =
        .ok (.feasible [0, 1, 2] [0, 1, 2] 3) ∧
      ∀ limit, (Solver.solveStandard ⟨35, 0, .bland⟩ beale).result ≠
        .error (.failure (.iterationLimit .two limit)) := by
  have short := @bland_terminates ⟨35, 0, .bland⟩ rfl rfl
  have long := @bland_terminates ⟨120, 0, .bland⟩ rfl rfl
  have feasible : (phaseOne ⟨35, 0, .bland⟩ (Program.ofProblem beale)).result =
      .ok (.feasible [0, 1, 2] [0, 1, 2] 3) := by with_unfolding_all rfl
  obtain ⟨distinct, _, different, ends⟩ := short.1 _ _ _ beale_start.1 beale_start.2
  exact ⟨distinct, different, ends (by decide), (long.2 beale).1 (by decide), feasible,
    (short.2 beale).2 _ _ _ feasible (by decide)⟩

end Solver

end LinOpt
