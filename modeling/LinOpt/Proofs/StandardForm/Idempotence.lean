import LinOpt.Proofs.Problem.Equality
import LinOpt.Proofs.Scalar.Unit
import LinOpt.Proofs.StandardForm.Equations

/-!
# Normalization of a standard form

Normalization leaves a problem in standard form alone: every variable is kept, so no column is
scaled, no offset moves to the right and no bound becomes a row; no right side is negative, and an
equation needs no column of its own. What normalization returns is such a problem, unless a right
side is NaN.
-/

namespace LinOpt

namespace StandardForm

variable {α β : Type} [Scalar α]

/-! ### Variables that are kept -/

/-- One column for each variable, in order. -/
theorem structuralColumns_keep (names : List String) :
    structuralColumns names (List.replicate names.length (.keep : Elimination α)) =
      names.mapIdx fun index name => ⟨name, index, 1⟩ := by
  -- The columns behind the first one have later places.
  have placed (names : List String) (place : Nat → Nat) :
      ((names.zip (List.replicate names.length (.keep : Elimination α))).mapIdx fun index named =>
        named.2.columns.map fun column =>
          (⟨named.1 ++ column.1, place index, column.2⟩ : Structural α)).flatten =
      names.mapIdx fun index name => ⟨name, place index, 1⟩ := by
    induction names generalizing place with
    | nil => rfl
    | cons name names ih =>
      have rest := ih (fun index => place (index + 1))
      simp only [List.length_cons, List.replicate_succ, List.zip_cons_cons, List.mapIdx_cons,
        List.flatten_cons, rest]
      simp [Elimination.columns]
  exact (structuralColumns_eq _ _).trans (placed names id)

theorem map_name_keep (names : List String) :
    (structuralColumns names (List.replicate names.length (.keep : Elimination α))).map (·.name) =
      names := by
  rw [structuralColumns_keep]
  exact List.ext_getElem (by simp) (by simp)

theorem map_structural_keep (names : List String) :
    (structuralColumns names (List.replicate names.length (.keep : Elimination α))).map
      (fun c => Column.structural c.index c.scale) =
        (List.range names.length).map (.structural · 1) := by
  rw [structuralColumns_keep]
  exact List.ext_getElem (by simp) (by simp)

/-- In terms of the kept columns a row has its own coefficients. -/
theorem map_coefficient_keep (unit : ∀ x : α, x * 1 = x) {names : List String}
    {coefficients : List α} (length : coefficients.length = names.length) :
    (structuralColumns names (List.replicate names.length (.keep : Elimination α))).map
      (fun c => coefficients.getD c.index 0 * c.scale) = coefficients := by
  rw [structuralColumns_keep]
  refine List.ext_getElem (by simp [length]) fun j _ small => ?_
  simp [unit, List.getD, small]

theorem shiftedRhs_keep (constraint : Constraint α) (n : Nat) :
    shiftedRhs constraint (List.replicate n .keep) = constraint.rhs := by
  rw [shiftedRhs]
  generalize constraint.rhs = rhs
  -- A kept variable has no offset, so no step of the fold changes the right side.
  induction constraint.coefficients generalizing n with
  | nil => rfl
  | cons coefficient coefficients ih =>
    cases n with
    | zero => rfl
    | succ n => exact ih n

theorem boundConstraints_keep (names : List String) (n : Nat) (columns : List (Structural α)) :
    boundConstraints names (List.replicate n .keep) columns = [] := by
  rw [boundConstraints, List.flatten_eq_nil_iff]
  intro rows listed
  obtain ⟨i, small, rfl⟩ := List.mem_mapIdx.mp listed
  simp [Elimination.boundRows]

theorem inequalities_keep (unit : ∀ x : α, x * 1 = x) {problem : Problem α β}
    (rectangular : problem.Rectangular) :
    inequalities problem (List.replicate problem.numVariables .keep) = problem.constraints := by
  rw [inequalities, boundConstraints_keep, List.append_nil]
  refine (List.map_congr_left fun c member => ?_).trans (List.map_id _)
  have coefficients := map_coefficient_keep unit (rectangular.rows c member)
  rw [substituted, shiftedRhs_keep, Problem.numVariables, coefficients]
  rfl

/-! ### Equations -/

theorem auxiliaryColumns_eq_nil {constraints : List (Constraint α)}
    (equations : ∀ c ∈ constraints, c.sense = .eq) : auxiliaryColumns constraints = [] := by
  rw [auxiliaryColumns, List.filterMap_eq_nil_iff]
  rintro ⟨c, row⟩ listed
  show auxiliaryColumn? c row = none
  exact auxiliaryColumn?_none.mpr (equations c (List.fst_mem_of_mem_zipIdx listed))

/-- Without auxiliary columns an equation stays as it is. -/
theorem mapIdx_equation_nil {constraints : List (Constraint α)}
    (equations : ∀ c ∈ constraints, c.sense = .eq) :
    constraints.mapIdx (equation []) = constraints := by
  refine List.ext_getElem (by simp) fun i _ small => ?_
  rw [List.getElem_mapIdx, equation, List.map_nil, List.append_nil,
    ← equations _ (List.getElem_mem small)]

variable [Endpoint β α] {problem : Problem α β}

theorem eliminations_keep (rectangular : problem.Rectangular)
    (kept : ∀ bounds ∈ problem.bounds, bounds.elimination? = some .keep) :
    eliminations problem = .ok (List.replicate problem.numVariables .keep) := by
  have length : (problem.names.zip problem.bounds).length =
      (List.replicate problem.numVariables (.keep : Elimination α)).length := by
    rw [List.length_zip, rectangular.bounds, Problem.numVariables, min_self, List.length_replicate]
  rw [eliminations, mapM_eq_ok_iff, List.forall₂_iff_zip]
  refine ⟨length, fun {pair elimination} member => ?_⟩
  obtain ⟨listed, same⟩ := List.of_mem_zip member
  have found := kept _ (List.of_mem_zip listed).2
  rw [List.eq_of_mem_replicate same]
  simp only [found]

/-- The standard form that keeps every variable: of the problem only the bounds change. -/
def keeping (problem : Problem α β) : StandardForm α β where
  problem := { problem with bounds := problem.names.map fun _ => .nonNegative }
  negated := false
  columns := (List.range problem.numVariables).map (.structural · 1)
  offsets := List.replicate problem.numVariables 0
  givenCosts := problem.objective.coefficients

theorem ofEliminations_keep (unit : ∀ x : α, x * 1 = x) (rectangular : problem.Rectangular)
    (goal : problem.objective.goal = .minimize)
    (equations : ∀ c ∈ problem.constraints, c.sense = .eq)
    (notNegative : ∀ c ∈ problem.constraints, ¬ c.rhs < 0) :
    ofEliminations problem (List.replicate problem.numVariables .keep) = keeping problem := by
  have rows : (inequalities problem (List.replicate problem.numVariables .keep)).map oriented =
      problem.constraints := by
    rw [inequalities_keep unit rectangular]
    refine (List.map_congr_left fun c member => ?_).trans (List.map_id _)
    exact if_neg (notNegative c member)
  have given : (problem.objective.goal == Goal.maximize) = false := by
    rw [goal]
    rfl
  have objective : (⟨problem.objective.coefficients, .minimize⟩ : Objective α) =
      problem.objective := by
    rw [← goal]
  simp only [ofEliminations, rows, auxiliaryColumns_eq_nil equations,
    mapIdx_equation_nil equations, given, Bool.false_eq_true, if_false, List.map_nil,
    List.append_nil]
  -- What is left are the names, places and costs of the structural columns.
  simp only [Problem.numVariables, map_name_keep, map_structural_keep,
    map_coefficient_keep unit rectangular.costs, objective, List.map_replicate]
  rfl

end StandardForm

/-! ### Floating-point numbers -/

/-- The lower bound of a non-negative variable is one of the zeros. -/
theorem Bounds.elimination?_nonNegative {bounds : Bounds Float}
    (nonNegative : bounds.isNonNegative = true) : bounds.elimination? = some .keep := by
  obtain ⟨lower, upper⟩ := bounds
  obtain ⟨low, high⟩ := Bool.and_eq_true_iff.mp nonNegative
  obtain rfl := (float_beq_iff_eq (y := Endpoint.posInf) (by decide) upper).mp high
  obtain ⟨_, _, rfl | ⟨rfl, _⟩ | ⟨rfl, _⟩⟩ := Float.beq_iff_ne_nan_and_eq.mp low <;> rfl

namespace Problem

/-- No cost and no coefficient is NaN. -/
structure NumericRows (problem : Problem Float Float) : Prop where
  costs : ∀ cost ∈ problem.objective.coefficients, cost.isNaN = false
  coefficients : ∀ c ∈ problem.constraints, ∀ coefficient ∈ c.coefficients,
    coefficient.isNaN = false

/-- No number is NaN. -/
structure Numeric (problem : Problem Float Float) : Prop extends problem.NumericRows where
  rhs : ∀ c ∈ problem.constraints, c.rhs.isNaN = false
  bounds : ∀ bounds ∈ problem.bounds, bounds.lower.isNaN = false ∧ bounds.upper.isNaN = false

variable {problem : Problem Float Float}

/-- Standard bounds instead of equal ones make an equal problem. -/
theorem NumericRows.keeping_beq (numeric : problem.NumericRows)
    (rectangular : problem.Rectangular) (standard : problem.isStandardForm = true) :
    ((StandardForm.keeping problem).problem == problem) = true := by
  obtain ⟨_, equations, nonNegative⟩ := isStandardForm_iff.mp standard
  refine problem_beq (Eq.refl problem.names) ?_ ?_ ?_
  · exact objective_beq (beq_self_of_numbers numeric.costs) rfl
  · -- A right side that is at least zero is not NaN.
    refine beq_of_forall₂ (List.forall₂_same.mpr fun c member => ?_)
    have number := ((float_nonneg_iff _).mp (equations c member).2).2
    exact constraint_beq rfl (beq_self_of_numbers (numeric.coefficients c member)) rfl
      (float_beq_self (Bool.eq_false_iff.mpr number))
  · -- A lower bound may be the negative zero, which is equal to the standard one.
    apply beq_of_forall₂
    rw [StandardForm.keeping, List.forall₂_map_left_iff, List.forall₂_iff_zip]
    refine ⟨rectangular.bounds.symm, fun {name bounds} member => ?_⟩
    obtain ⟨lower, upper⟩ :=
      Bool.and_eq_true_iff.mp (nonNegative bounds (List.of_mem_zip member).2)
    exact bounds_beq ((float_beq_comm _ _).trans lower) ((float_beq_comm _ _).trans upper)

theorem normalize_standardForm (valid : problem.validate = .ok ())
    (standard : problem.isStandardForm = true) :
    problem.normalize.result = .ok (.keeping problem) := by
  have rectangular := validate_eq_ok_iff.mp valid
  obtain ⟨goal, equations, nonNegative⟩ := isStandardForm_iff.mp standard
  have kept := StandardForm.eliminations_keep rectangular fun bounds member =>
    Bounds.elimination?_nonNegative (nonNegative bounds member)
  have same := StandardForm.ofEliminations_keep float_mul_one rectangular goal
    (fun c member => (equations c member).1)
    (fun c member => ((float_nonneg_iff _).mp (equations c member).2).1)
  rw [result_normalize_valid valid, kept]
  exact congrArg Except.ok same

/-- A problem in standard form without NaN among its costs and coefficients is normalized to an
equal problem, with one column for each variable. So a normalized problem without NaN is normalized
to itself. -/
theorem normalize_idempotent :
    (∀ problem : Problem Float Float, problem.validate = .ok () → problem.isStandardForm = true →
      problem.NumericRows → ∃ form, problem.normalize.result = .ok form ∧
        (form.problem == problem) = true ∧ form.negated = false ∧
        form.offsets = List.replicate problem.numVariables 0 ∧
        form.columns = (List.range problem.numVariables).map (.structural · 1)) ∧
    ∀ (problem : Problem Float Float) (form : StandardForm Float Float),
      problem.normalize.result = .ok form → form.problem.Numeric →
        ∃ again, form.problem.normalize.result = .ok again ∧
          (again.problem == form.problem) = true := by
  have unchanged (problem : Problem Float Float) (valid : problem.validate = .ok ())
      (standard : problem.isStandardForm = true) (numeric : problem.NumericRows) :=
    numeric.keeping_beq (validate_eq_ok_iff.mp valid) standard
  refine ⟨fun problem valid standard numeric => ?_, fun problem form returned numeric => ?_⟩
  · exact ⟨_, normalize_standardForm valid standard, unchanged problem valid standard numeric, rfl,
      rfl, rfl⟩
  · obtain ⟨eliminations, rfl⟩ := normalize_ofEliminations returned
    have equations := StandardForm.equationForm_ofEliminations problem eliminations
    have valid := validate_eq_ok_iff.mpr equations.rectangular
    -- A right side of the first pass is not negative, so without NaN it is at least zero.
    have standard : (StandardForm.ofEliminations problem eliminations).problem.isStandardForm =
        true := by
      refine (equations.isStandardForm_iff (by decide)).mpr fun c member => ?_
      have notNegative := StandardForm.rhs_ofEliminations float_neg_not_neg c member
      exact (float_nonneg_iff _).mpr ⟨notNegative, Bool.eq_false_iff.mp (numeric.rhs c member)⟩
    exact ⟨_, normalize_standardForm valid standard,
      unchanged _ valid standard numeric.toNumericRows⟩

/-- The lower bound of `x` is the negative zero. -/
def signedZero : Problem Float Float where
  names := ["x", "y"]
  objective := ⟨[1, -2], .minimize⟩
  constraints := [⟨"a", [0.5, 1 / 0], .eq, -0⟩]
  bounds := [⟨-0, 1 / 0⟩, .nonNegative]

/-- A maximization with variables that are split, shifted and bounded by rows. -/
def mixedBounds : Problem Float Float where
  names := ["x", "y", "z"]
  objective := ⟨[1, -2, 0.5], .maximize⟩
  constraints := [⟨"a", [1, 1, 1], .le, -4⟩, ⟨"b", [0, 1, 0.1], .ge, 3⟩]
  bounds := [.free, ⟨-1, 2⟩, ⟨0, 5⟩]

theorem normalize_idempotent_mixedBounds :
    (∃ form, signedZero.normalize.result = .ok form ∧ (form.problem == signedZero) = true ∧
      form.columns = [.structural 0 1, .structural 1 1]) ∧
    ∃ form, mixedBounds.normalize.result = .ok form ∧ form.problem.numVariables = 8 ∧
      ∃ again, form.problem.normalize.result = .ok again ∧
        (again.problem == form.problem) = true := by
  obtain ⟨keeps, repeats⟩ := normalize_idempotent
  constructor
  · obtain ⟨form, returned, same, _, _, columns⟩ := keeps signedZero rfl (by decide)
      ⟨by decide, by decide⟩
    exact ⟨form, returned, same, columns⟩
  · have returned : mixedBounds.normalize.result = .ok (.ofEliminations mixedBounds
        [.split, .substitute (-1) 1 (some 3), .rows none 5]) := by rfl
    have numeric : (StandardForm.ofEliminations mixedBounds
        [.split, .substitute (-1) 1 (some 3), .rows none 5]).problem.Numeric :=
      ⟨⟨by decide, by decide⟩, by decide, by decide⟩
    exact ⟨_, returned, by decide, repeats _ _ returned numeric⟩

end Problem

end LinOpt
