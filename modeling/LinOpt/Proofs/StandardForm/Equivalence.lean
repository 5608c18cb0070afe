import LinOpt.Proofs.StandardForm.Substitution

/-!
# Equivalence of a problem and its standard form

Over the rational numbers the solutions of the standard form are the feasible points of the given
problem, and the objectives agree up to a sign and a constant.
-/

namespace LinOpt

variable {problem : Problem Rat ExtendedRat}

namespace StandardForm

/-- What makes the solutions of a standard form the feasible points of a problem. -/
structure Represents (form : StandardForm Rat ExtendedRat)
    (problem : Problem Rat ExtendedRat) : Prop where
  sound : ∀ y : List Rat, y.length = form.problem.numVariables → (∀ value ∈ y, 0 ≤ value) →
    (∀ c ∈ form.problem.constraints, c.Holds y) → problem.Feasible (form.recover y)
  complete : ∀ x, problem.Feasible x → ∃ y : List Rat,
    y.length = form.problem.numVariables ∧ (∀ value ∈ y, 0 ≤ value) ∧
      (∀ c ∈ form.problem.constraints, c.Holds y) ∧ form.recover y = x
  objective : ∀ y, form.givenObjective (form.recover y) =
    (if form.negated then -1 else 1) * form.problem.objectiveAt y +
      problem.objectiveAt form.offsets

variable {eliminations : List (Elimination Rat)}

theorem objective_ofEliminations (problem : Problem Rat ExtendedRat)
    (eliminations : List (Elimination Rat)) :
    (ofEliminations problem eliminations).problem.objective.coefficients =
      (ofEliminations problem eliminations).columns.map (Column.coefficient
        (if problem.objective.goal == .maximize then problem.objective.coefficients.map (- ·)
          else problem.objective.coefficients)) := by
  simp only [ofEliminations, List.map_append, List.map_map]
  congr 1
  refine List.map_congr_left fun auxiliary listed => ?_
  exact (coefficient_auxiliary listed _).symm

theorem objective_recover (rectangular : problem.Rectangular)
    (eliminated : List.Forall₂ Eliminates problem.bounds eliminations) (y : List Rat) :
    problem.objectiveAt ((ofEliminations problem eliminations).recover y) =
      (if (ofEliminations problem eliminations).negated then -1 else 1) *
          (ofEliminations problem eliminations).problem.objectiveAt y +
        problem.objectiveAt (ofEliminations problem eliminations).offsets := by
  have fits : problem.objective.coefficients.length ≤
      (ofEliminations problem eliminations).offsets.length := by
    rw [rectangular.costs, ← rectangular.bounds, eliminated.length_eq]
    simp [ofEliminations]
  rw [Problem.objectiveAt, dot_recover _ fits, add_comm, Problem.objectiveAt, Problem.objectiveAt,
    objective_ofEliminations]
  congr 1
  show _ = (if problem.objective.goal == .maximize then -1 else 1) * _
  split
  · have negated : (ofEliminations problem eliminations).columns.map
        (Column.coefficient (problem.objective.coefficients.map (- ·))) =
          ((ofEliminations problem eliminations).columns.map
            (Column.coefficient problem.objective.coefficients)).map (- ·) := by
      rw [List.map_map]
      exact List.map_congr_left fun column _ => column.coefficient_neg _
    rw [negated, Scalar.dot_neg_left, neg_one_mul, neg_neg]
  · rw [one_mul]

theorem recover_append {ys : List Rat}
    (covered : ys.length = (structuralColumns problem.names eliminations).length)
    (values : List Rat) :
    (ofEliminations problem eliminations).recover (ys ++ values) =
      (ofEliminations problem eliminations).recover ys := by
  refine List.ext_getElem? fun i => ?_
  have weights : amount problem.names eliminations (ys ++ values) i =
      amount problem.names eliminations ys i := by
    rw [amount, ← List.append_nil (List.map _ _), Scalar.dot_append (by simp [covered]),
      Scalar.dot_nil_left, add_zero, amount]
  rw [getElem?_recover_ofEliminations, getElem?_recover_ofEliminations, weights]

theorem numVariables_ofEliminations (problem : Problem Rat ExtendedRat)
    (eliminations : List (Elimination Rat)) :
    (ofEliminations problem eliminations).problem.numVariables =
      (structuralColumns problem.names eliminations).length +
        (auxiliaryColumns ((inequalities problem eliminations).map oriented)).length := by
  simp [ofEliminations, Problem.numVariables]

/-- The rows of the standard form are equations, and solvable when the given rows hold. -/
theorem solution_append_iff {ys : List Rat}
    (covered : ys.length = (structuralColumns problem.names eliminations).length) :
    (∀ c ∈ inequalities problem eliminations, c.Holds ys) ↔
      ∃ values, values.length =
          (auxiliaryColumns ((inequalities problem eliminations).map oriented)).length ∧
        (∀ value ∈ values, 0 ≤ value) ∧
        ∀ c ∈ (ofEliminations problem eliminations).problem.constraints,
          c.Holds (ys ++ values) := by
  have fits : ∀ c ∈ (inequalities problem eliminations).map oriented,
      c.coefficients.length = ys.length := by
    intro c member
    obtain ⟨constraint, inside, rfl⟩ := List.mem_map.mp member
    rw [length_oriented, length_inequalities inside, covered]
  have solvable := equations_solvable fits
  simp only [List.forall_mem_map, oriented_holds] at solvable
  exact solvable

theorem holds_iff_equation {c : Constraint Rat}
    (member : c ∈ (ofEliminations problem eliminations).problem.constraints) {y : List Rat} :
    c.Holds y ↔ Scalar.dot c.coefficients y = c.rhs := by
  obtain ⟨i, small, rfl⟩ := List.mem_mapIdx.mp member
  rfl

/-- Solutions of the standard form are read as feasible points. -/
theorem recover_feasible (rectangular : problem.Rectangular)
    (eliminated : List.Forall₂ Eliminates problem.bounds eliminations) {y : List Rat}
    (solution : (ofEliminations problem eliminations).problem.NonNegativeSolution y) :
    problem.Feasible ((ofEliminations problem eliminations).recover y) := by
  have long := solution.length
  rw [numVariables_ofEliminations] at long
  -- The structural columns come first, the auxiliary ones have no part in the recovery.
  obtain ⟨ys, values, rfl, covered⟩ : ∃ ys values, y = ys ++ values ∧
      ys.length = (structuralColumns problem.names eliminations).length :=
    ⟨_, _, (List.take_append_drop _ y).symm, List.length_take_of_le (by omega)⟩
  have rest : values.length =
      (auxiliaryColumns ((inequalities problem eliminations).map oriented)).length := by
    rw [List.length_append] at long
    omega
  have nonneg := List.forall_mem_append.mp solution.nonneg
  rw [recover_append covered]
  refine (inequalities_hold rectangular eliminated nonneg.1).mp ?_
  refine (solution_append_iff covered).mpr ⟨values, rest, nonneg.2, fun c member => ?_⟩
  exact (holds_iff_equation member).mpr (solution.solves c member)

/-- Every feasible point is read from a solution of the standard form. -/
theorem exists_solution (rectangular : problem.Rectangular)
    (eliminated : List.Forall₂ Eliminates problem.bounds eliminations) {x : List Rat}
    (feasible : problem.Feasible x) :
    ∃ y, (ofEliminations problem eliminations).problem.NonNegativeSolution y ∧
      (ofEliminations problem eliminations).recover y = x := by
  let ys := columnValues (structuralColumns problem.names eliminations)
    (ofEliminations problem eliminations).offsets x
  have covered : ys.length = (structuralColumns problem.names eliminations).length :=
    List.length_map _
  have recovered : (ofEliminations problem eliminations).recover ys = x :=
    recover_columnValues rectangular eliminated feasible.bounds
  have nonneg : ∀ value ∈ ys, 0 ≤ value := by
    intro value member
    obtain ⟨c, _, rfl⟩ := List.mem_map.mp member
    exact le_max_left _ _
  -- The structural columns satisfy the rows, and the auxiliary ones take up what is left over.
  have rows := (inequalities_hold rectangular eliminated nonneg).mpr (recovered.symm ▸ feasible)
  obtain ⟨values, rest, positive, solved⟩ := (solution_append_iff covered).mp rows
  refine ⟨ys ++ values, ⟨?_, ?_, ?_⟩, ?_⟩
  · rw [numVariables_ofEliminations, List.length_append, covered, rest]
  · exact List.forall_mem_append.mpr ⟨nonneg, positive⟩
  · exact fun c member => (holds_iff_equation member).mp (solved c member)
  · rw [recover_append covered, recovered]

end StandardForm

namespace Problem

theorem normalize_ok {form : StandardForm Rat ExtendedRat}
    (returned : problem.normalize.result = .ok form) :
    problem.Rectangular ∧ ∃ eliminations, List.Forall₂ Eliminates problem.bounds eliminations ∧
      form = .ofEliminations problem eliminations := by
  obtain ⟨rectangular, eliminations, found, same⟩ := normalize_eq_ok_iff.mp returned
  exact ⟨rectangular, eliminations, StandardForm.eliminations_ok rectangular found, same⟩

/-- Normalization returns a standard form that represents the problem. -/
theorem normalize_represents {form : StandardForm Rat ExtendedRat}
    (returned : problem.normalize.result = .ok form) : form.Represents problem := by
  obtain ⟨rectangular, eliminations, eliminated, rfl⟩ := normalize_ok returned
  refine ⟨fun y long nonneg holds => ?_, fun x feasible => ?_, fun y => ?_⟩
  · refine StandardForm.recover_feasible rectangular eliminated ⟨long, nonneg, ?_⟩
    exact fun c member => (StandardForm.holds_iff_equation member).mp (holds c member)
  · obtain ⟨y, solution, recovered⟩ :=
      StandardForm.exists_solution rectangular eliminated feasible
    refine ⟨y, solution.length, solution.nonneg, fun c member => ?_, recovered⟩
    exact (StandardForm.holds_iff_equation member).mpr (solution.solves c member)
  · exact StandardForm.objective_recover rectangular eliminated y

/-- One variable for each class of bounds, and one row for each sense. -/
def oneOfEach : Problem Rat ExtendedRat where
  names := ["a", "b", "c", "d", "e", "f", "g"]
  objective := ⟨[1, 2, 3, 4, 5, 6, 7], .maximize⟩
  constraints :=
    [⟨"p", [1, 1, 0, 0, 0, 0, 1], .le, 10⟩, ⟨"q", [0, 1, 1, 0, 0, 1, 0], .ge, -3⟩,
      ⟨"r", [1, 0, 0, 1, 1, 0, 0], .eq, 2⟩]
  bounds :=
    [.free, .nonNegative, ⟨.finite 1, .posInf⟩, ⟨.negInf, .finite 4⟩, ⟨.finite 0, .finite 5⟩,
      ⟨.finite 1, .finite 2⟩, ⟨.finite (-1), .finite 3⟩]

theorem normalize_represents_oneOfEach :
    oneOfEach.normalize.result = .ok (.ofEliminations oneOfEach
        [.split, .keep, .substitute 1 1 none, .substitute 4 (-1) none, .rows none 5,
          .rows (some 1) 2, .substitute (-1) 1 (some 4)]) ∧
      (StandardForm.ofEliminations oneOfEach
        [.split, .keep, .substitute 1 1 none, .substitute 4 (-1) none, .rows none 5,
          .rows (some 1) 2, .substitute (-1) 1 (some 4)]).Represents oneOfEach := by
  have returned : oneOfEach.normalize.result = .ok (.ofEliminations oneOfEach
      [.split, .keep, .substitute 1 1 none, .substitute 4 (-1) none, .rows none 5,
        .rows (some 1) 2, .substitute (-1) 1 (some 4)]) := by with_unfolding_all rfl
  exact ⟨returned, normalize_represents returned⟩

end Problem

end LinOpt
