import LinOpt.Proofs.Solver.Phases
import LinOpt.Proofs.StandardForm.Equivalence

/-!
# Solutions are true

What a solve says about a problem holds for the problem as it was given, over the rational numbers
with the tolerance zero: the standard form represents the problem, and the outcome for the standard
form is true.
-/

namespace LinOpt

variable {problem : Problem Rat ExtendedRat}

/-- What a solution says about its problem. -/
structure Solution.Sound (solution : Solution ExtendedRat Rat)
    (problem : Problem Rat ExtendedRat) : Prop where
  optimal : solution.status = .optimal → problem.Feasible solution.values ∧
    solution.objectiveValue = .finite (problem.objectiveAt solution.values) ∧
    ∀ x, problem.Feasible x →
      problem.objective.goal.NoWorse (problem.objectiveAt solution.values) (problem.objectiveAt x)
  infeasible : solution.status = .infeasible → ¬ ∃ x, problem.Feasible x
  unbounded : solution.status = .unbounded → ∀ bound, ∃ x, problem.Feasible x ∧
    problem.objective.goal.Better (problem.objectiveAt x) bound

/-! ### Comparing objectives across the standard form -/

namespace StandardForm

variable {eliminations : List (Elimination Rat)}

theorem noWorse_recover (rectangular : problem.Rectangular)
    (eliminated : List.Forall₂ Eliminates problem.bounds eliminations) {y z : List Rat}
    (least : (ofEliminations problem eliminations).problem.objectiveAt y ≤
      (ofEliminations problem eliminations).problem.objectiveAt z) :
    problem.objective.goal.NoWorse
      (problem.objectiveAt ((ofEliminations problem eliminations).recover y))
      (problem.objectiveAt ((ofEliminations problem eliminations).recover z)) := by
  have negated : (ofEliminations problem eliminations).negated =
    (problem.objective.goal == .maximize) := rfl
  rw [objective_recover rectangular eliminated, objective_recover rectangular eliminated, negated]
  cases problem.objective.goal with
  | minimize =>
    show 1 * _ + _ ≤ 1 * _ + _
    linarith
  | maximize =>
    show -1 * _ + _ ≤ -1 * _ + _
    linarith

/-- A small enough objective of the standard form is better than any bound for the problem. -/
theorem better_recover (rectangular : problem.Rectangular)
    (eliminated : List.Forall₂ Eliminates problem.bounds eliminations) (bound : Rat) :
    ∃ target, ∀ y, (ofEliminations problem eliminations).problem.objectiveAt y < target →
      problem.objective.goal.Better
        (problem.objectiveAt ((ofEliminations problem eliminations).recover y)) bound := by
  have negated : (ofEliminations problem eliminations).negated =
    (problem.objective.goal == .maximize) := rfl
  simp only [objective_recover rectangular eliminated, negated]
  cases problem.objective.goal with
  | minimize =>
    refine ⟨bound - problem.objectiveAt (ofEliminations problem eliminations).offsets, ?_⟩
    intro y below
    show 1 * _ + _ < bound
    linarith
  | maximize =>
    refine ⟨problem.objectiveAt (ofEliminations problem eliminations).offsets - bound, ?_⟩
    intro y below
    show bound < -1 * _ + _
    linarith

end StandardForm

namespace Solver

variable {solver : Solver Rat}

theorem solve_ok {solution : Solution ExtendedRat Rat}
    (returned : (solver.solve problem).result = .ok solution) :
    ∃ form outcome, problem.normalize.result = .ok form ∧
      (solver.solveStandard form.problem).result = .ok outcome ∧
      solution = .ofOutcome form problem.objective.goal outcome := by
  unfold solve at returned
  simp only [Logged.result_bind, Logged.result_mapError, Logged.result_pure] at returned
  cases normalized : problem.normalize.result with
  | error reason => simp [normalized, Except.mapError, Except.bind] at returned
  | ok form =>
    simp only [normalized, Except.mapError, Except.bind] at returned
    cases solved : (solver.solveStandard form.problem).result with
    | error reason => simp [solved] at returned
    | ok outcome =>
      simp only [solved, Except.ok.injEq] at returned
      exact ⟨form, outcome, rfl, solved, returned.symm⟩

/-- Whatever the pricing and the cap, a returned solution is right about its problem. -/
theorem solve_sound (exact : solver.tolerance = 0) {solution : Solution ExtendedRat Rat}
    (returned : (solver.solve problem).result = .ok solution) : solution.Sound problem := by
  obtain ⟨form, outcome, normalized, solved, rfl⟩ := solve_ok returned
  obtain ⟨rectangular, eliminations, eliminated, rfl⟩ := Problem.normalize_ok normalized
  cases outcome with
  | optimal basic =>
    obtain ⟨solution, _, least⟩ := optimal_values exact solved
    refine ⟨fun _ => ⟨?_, rfl, fun x feasible => ?_⟩, nofun, nofun⟩
    · exact StandardForm.recover_feasible rectangular eliminated solution
    · obtain ⟨y, other, rfl⟩ := StandardForm.exists_solution rectangular eliminated feasible
      exact StandardForm.noWorse_recover rectangular eliminated (least y other)
  | infeasible =>
    refine ⟨nofun, fun _ => ?_, nofun⟩
    rintro ⟨x, feasible⟩
    obtain ⟨y, solution, _⟩ := StandardForm.exists_solution rectangular eliminated feasible
    exact infeasible_solutions exact solved ⟨y, solution⟩
  | unbounded ray =>
    refine ⟨nofun, nofun, fun _ bound => ?_⟩
    obtain ⟨target, better⟩ := StandardForm.better_recover rectangular eliminated bound
    obtain ⟨y, solution, below⟩ := unbounded_solutions exact solved target
    exact ⟨_, StandardForm.recover_feasible rectangular eliminated solution, better y below⟩

/-- Rows of every sense over variables with an upper bound, with both bounds and with none. -/
def mixed : Problem Rat ExtendedRat where
  names := ["x", "y", "z"]
  objective := ⟨[1, 2, -1], .maximize⟩
  constraints :=
    [⟨"a", [1, 1, 0], .le, 4⟩, ⟨"b", [1, 0, -1], .eq, -3⟩, ⟨"c", [0, 1, 1], .ge, 1⟩]
  bounds := [⟨.negInf, .finite 2⟩, ⟨.finite 1, .finite 5⟩, .free]

/-- The first row leaves no room for the lower bound of `x`. -/
def crowded : Problem Rat ExtendedRat :=
  { mixed with bounds := [⟨.finite 4, .posInf⟩, ⟨.finite 1, .finite 5⟩, .free] }

/-- Without the last row nothing keeps `x` from falling. -/
def falling : Problem Rat ExtendedRat :=
  { mixed with
    objective := ⟨[1, 0, 0], .minimize⟩
    constraints := mixed.constraints.take 2 }

theorem solve_sound_mixed :
    ((Solver.solve ⟨10, 0, .bland⟩ mixed).result = .ok ⟨.optimal, [-7, 5, -4], .finite 7,
        ["s_a", "x", "y", "z''", "e_y_lower"], ⟨5, 0⟩⟩ ∧
      mixed.Feasible [-7, 5, -4] ∧
      .finite 7 = ExtendedRat.finite (mixed.objectiveAt [-7, 5, -4]) ∧
      ∀ x, mixed.Feasible x → mixed.objectiveAt x ≤ mixed.objectiveAt [-7, 5, -4]) ∧
    ((Solver.solve ⟨10, 0, .dantzig⟩ crowded).result = .ok (.infeasible .maximize) ∧
      ¬ ∃ x, crowded.Feasible x) ∧
    (Solver.solve ⟨10, 0, .dantzig⟩ falling).result = .ok (.unbounded .minimize) ∧
      ∀ bound, ∃ x, falling.Feasible x ∧ falling.objectiveAt x < bound := by
  have optimal : (Solver.solve ⟨10, 0, .bland⟩ mixed).result = .ok ⟨.optimal, [-7, 5, -4],
      .finite 7, ["s_a", "x", "y", "z''", "e_y_lower"], ⟨5, 0⟩⟩ := by with_unfolding_all rfl
  have infeasible : (Solver.solve ⟨10, 0, .dantzig⟩ crowded).result =
      .ok (.infeasible .maximize) := by with_unfolding_all rfl
  have unbounded : (Solver.solve ⟨10, 0, .dantzig⟩ falling).result =
      .ok (.unbounded .minimize) := by with_unfolding_all rfl
  exact ⟨⟨optimal, (solve_sound rfl optimal).optimal rfl⟩,
    ⟨infeasible, (solve_sound rfl infeasible).infeasible rfl⟩,
    unbounded, (solve_sound rfl unbounded).unbounded rfl⟩

end Solver

end LinOpt
