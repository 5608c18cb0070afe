import LinOpt.Proofs.Problem.Feasible
import LinOpt.Proofs.Results
import LinOpt.StandardForm

/-!
# The shape of a standard form

Normalization fails on a problem with a list of the wrong length, then on the first variable whose
bounds no number lies within, and on nothing else. What it returns minimizes over non-negative
variables subject to equations, whatever the numbers are; only the right sides can keep it from
being a standard form.
-/

namespace LinOpt

variable {α β : Type} [Scalar α] [Endpoint β α]

/-! ### Variables without an elimination -/

theorem Bounds.elimination?_eq_none_iff {bounds : Bounds β} :
    bounds.elimination? = none ↔ bounds.isMalformed = true := by
  unfold Bounds.elimination?
  constructor
  · intro none
    split at none
    next malformed => exact malformed
    next sound =>
      -- Whichever ends are finite, an interval has an elimination.
      split at none <;> cases none
  · intro malformed
    rw [if_pos malformed]

namespace Problem

/-- The first variable whose bounds are `bad` has this name and these bounds. -/
def FirstWith (problem : Problem α β) (bad : Bounds β → Prop) (name : String)
    (bounds : Bounds β) : Prop :=
  ∃ before after, problem.names.zip problem.bounds = before ++ (name, bounds) :: after ∧
    (∀ earlier ∈ before, ¬ bad earlier.2) ∧ bad bounds

variable {problem : Problem α β}

/-- A variable passes the choice of eliminations unless its bounds are malformed. -/
theorem elimination_passes_iff (pair : String × Bounds β) :
    (∃ elimination, (match pair with
      | (name, bounds) => match bounds.elimination? with
        | some elimination => .ok elimination
        | none => .error (.malformedBounds name bounds) :
          Except (NormalizeError β) (Elimination α)) = .ok elimination) ↔
      ¬ pair.2.isMalformed = true := by
  rw [← Bounds.elimination?_eq_none_iff]
  cases found : pair.2.elimination? <;> simp [found]

theorem eliminations_eq_error_iff {reason : NormalizeError β} :
    StandardForm.eliminations problem = .error reason ↔
      ∃ name bounds, reason = .malformedBounds name bounds ∧
        problem.FirstWith (·.isMalformed = true) name bounds := by
  rw [StandardForm.eliminations, mapM_eq_error_iff]
  constructor
  · rintro ⟨before, ⟨name, bounds⟩, after, listed, passed, failed⟩
    cases found : bounds.elimination? with
    | some elimination => simp [found] at failed
    | none =>
      obtain rfl : NormalizeError.malformedBounds name bounds = reason := by
        simpa [found] using failed
      exact ⟨name, bounds, rfl, before, after, listed,
        fun pair member => (elimination_passes_iff pair).mp (passed pair member),
        Bounds.elimination?_eq_none_iff.mp found⟩
  · rintro ⟨name, bounds, rfl, before, after, listed, sound, malformed⟩
    refine ⟨before, (name, bounds), after, listed,
      fun pair member => (elimination_passes_iff pair).mpr (sound pair member), ?_⟩
    simp [Bounds.elimination?_eq_none_iff.mpr malformed]

/-- The eliminations of the variables are those that their bounds choose. -/
theorem eliminations_eq_ok_iff {found : List (Elimination α)} :
    StandardForm.eliminations problem = .ok found ↔
      List.Forall₂ (fun pair elimination => pair.2.elimination? = some elimination)
        (problem.names.zip problem.bounds) found := by
  rw [StandardForm.eliminations, mapM_eq_ok_iff]
  constructor <;> refine fun each => each.imp fun pair elimination same => ?_
  · cases chosen : pair.2.elimination? <;> simp_all
  · simp only [same]

theorem exists_eliminations_iff (rectangular : problem.Rectangular) :
    (∃ found, StandardForm.eliminations problem = .ok found) ↔
      ∀ bounds ∈ problem.bounds, ¬ bounds.isMalformed = true := by
  have listed : problem.bounds = (problem.names.zip problem.bounds).map Prod.snd :=
    (List.map_snd_zip rectangular.bounds.le).symm
  rw [StandardForm.eliminations, exists_mapM_eq_ok_iff, listed, List.forall_mem_map,
    List.map_snd_zip rectangular.bounds.le]
  exact forall₂_congr fun pair _ => elimination_passes_iff pair

/-! ### When normalization fails -/

theorem result_normalize (problem : Problem α β) :
    problem.normalize.result =
      (problem.validate.mapError .problem).bind fun _ =>
        (StandardForm.eliminations problem).map (StandardForm.ofEliminations problem) := by
  simp only [normalize, Logged.result_bind, Logged.result_ofExcept]
  rfl

theorem result_normalize_invalid {reason : ProblemError}
    (invalid : problem.validate = .error reason) :
    problem.normalize.result = .error (.problem reason) := by
  rw [result_normalize, invalid]
  rfl

theorem result_normalize_valid (valid : problem.validate = .ok ()) :
    problem.normalize.result =
      (StandardForm.eliminations problem).map (StandardForm.ofEliminations problem) := by
  rw [result_normalize, valid]
  rfl

/-- Normalization reports what validation reports. -/
theorem normalize_problem_iff {reason : ProblemError} :
    problem.normalize.result = .error (.problem reason) ↔ problem.validate = .error reason := by
  cases valid : problem.validate with
  | error other => simp [result_normalize_invalid valid]
  | ok _ =>
    rw [result_normalize_valid valid]
    cases eliminated : StandardForm.eliminations problem with
    | ok eliminations => simp [Except.map]
    | error other =>
      obtain ⟨name, bounds, rfl, _⟩ := eliminations_eq_error_iff.mp eliminated
      simp [Except.map]

/-- Normalization of a valid problem fails on the first malformed bounds. -/
theorem normalize_malformedBounds_iff {name : String} {bounds : Bounds β} :
    problem.normalize.result = .error (.malformedBounds name bounds) ↔
      problem.validate = .ok () ∧ problem.FirstWith (·.isMalformed = true) name bounds := by
  cases valid : problem.validate with
  | error other => simp [result_normalize_invalid valid]
  | ok _ =>
    have same : StandardForm.eliminations problem = .error (.malformedBounds name bounds) ↔
        problem.FirstWith (·.isMalformed = true) name bounds := by
      rw [eliminations_eq_error_iff]
      simp
    rw [result_normalize_valid valid, ← same]
    cases StandardForm.eliminations problem <;> simp [Except.map]

/-- A valid problem without malformed bounds has a standard form. -/
theorem exists_normalize_iff :
    (∃ form, problem.normalize.result = .ok form) ↔
      problem.validate = .ok () ∧ ∀ bounds ∈ problem.bounds, ¬ bounds.isMalformed = true := by
  cases valid : problem.validate with
  | error other => simp [result_normalize_invalid valid]
  | ok _ =>
    rw [result_normalize_valid valid, ← exists_eliminations_iff (validate_eq_ok_iff.mp valid)]
    cases StandardForm.eliminations problem <;> simp [Except.map]

theorem normalize_eq_ok_iff {form : StandardForm α β} :
    problem.normalize.result = .ok form ↔ problem.Rectangular ∧ ∃ eliminations,
      StandardForm.eliminations problem = .ok eliminations ∧
        form = .ofEliminations problem eliminations := by
  rw [← validate_eq_ok_iff]
  cases valid : problem.validate with
  | error reason => simp [result_normalize_invalid valid]
  | ok _ =>
    rw [result_normalize_valid valid]
    cases StandardForm.eliminations problem <;> simp [Except.map, eq_comm]

theorem normalize_ofEliminations {form : StandardForm α β}
    (returned : problem.normalize.result = .ok form) :
    ∃ eliminations, form = .ofEliminations problem eliminations := by
  obtain ⟨_, eliminations, _, same⟩ := normalize_eq_ok_iff.mp returned
  exact ⟨eliminations, same⟩

/-- A minimization over non-negative variables whose rows are equations, with one entry for each
variable in every list. -/
structure EquationForm (problem : Problem α β) : Prop where
  rectangular : problem.Rectangular
  goal : problem.objective.goal = .minimize
  senses : ∀ c ∈ problem.constraints, c.sense = .eq
  bounds : ∀ bounds ∈ problem.bounds, bounds = .nonNegative

/-- The right sides decide whether equations over non-negative variables are a standard form. -/
theorem EquationForm.isStandardForm_iff (equations : problem.EquationForm)
    (sound : (Bounds.nonNegative : Bounds β).isNonNegative = true) :
    problem.isStandardForm = true ↔ ∀ c ∈ problem.constraints, 0 ≤ c.rhs := by
  rw [Problem.isStandardForm_iff]
  constructor
  · rintro ⟨_, rows, _⟩ c member
    exact (rows c member).2
  · intro nonneg
    refine ⟨equations.goal, fun c member => ⟨equations.senses c member, nonneg c member⟩, ?_⟩
    intro bounds member
    rw [equations.bounds bounds member, sound]

end Problem

/-! ### What normalization returns -/

namespace StandardForm

omit [Endpoint β α] in
theorem length_oriented (constraint : Constraint α) :
    (oriented constraint).coefficients.length = constraint.coefficients.length := by
  unfold oriented
  split
  · exact List.length_map _
  · rfl

omit [Endpoint β α] in
/-- Every row has an entry for each structural column. -/
theorem length_inequalities {problem : Problem α β} {eliminations : List (Elimination α)}
    {c : Constraint α} (member : c ∈ inequalities problem eliminations) :
    c.coefficients.length = (structuralColumns problem.names eliminations).length := by
  rcases List.mem_append.mp member with given | bound
  · obtain ⟨constraint, _, rfl⟩ := List.mem_map.mp given
    exact List.length_map _
  · obtain ⟨rows, listed, inside⟩ := List.mem_flatten.mp bound
    obtain ⟨i, small, rfl⟩ := List.mem_mapIdx.mp listed
    obtain ⟨row, _, rfl⟩ := List.mem_map.mp inside
    exact List.length_map _

theorem mem_constraints_ofEliminations {problem : Problem α β}
    {eliminations : List (Elimination α)} {c : Constraint α}
    (member : c ∈ (ofEliminations problem eliminations).problem.constraints) :
    ∃ row, ∃ given ∈ inequalities problem eliminations, c =
      equation (auxiliaryColumns ((inequalities problem eliminations).map oriented)) row
        (oriented given) := by
  obtain ⟨row, small, rfl⟩ := List.mem_mapIdx.mp member
  obtain ⟨given, listed, same⟩ := List.mem_map.mp (List.getElem_mem small)
  exact ⟨row, given, listed, congrArg _ same.symm⟩

/-- Every column has a name, a cost, bounds and an entry in each row. -/
theorem equationForm_ofEliminations (problem : Problem α β)
    (eliminations : List (Elimination α)) :
    (ofEliminations problem eliminations).problem.EquationForm where
  rectangular := {
    costs := by simp [ofEliminations, Problem.numVariables]
    bounds := by simp [ofEliminations, Problem.numVariables]
    rows := by
      intro c member
      obtain ⟨row, given, listed, rfl⟩ := mem_constraints_ofEliminations member
      have wide := length_inequalities listed
      rw [← length_oriented] at wide
      simp [equation, ofEliminations, Problem.numVariables, wide] }
  goal := rfl
  senses := by
    intro c member
    obtain ⟨row, given, _, rfl⟩ := mem_constraints_ofEliminations member
    rfl
  bounds := by
    intro bounds member
    obtain ⟨_, _, rfl⟩ := List.mem_map.mp member
    rfl

/-- A right side that was negative is negated, and then it is not. -/
theorem rhs_ofEliminations {problem : Problem α β} {eliminations : List (Elimination α)}
    (turned : ∀ x : α, x < 0 → ¬ -x < 0) :
    ∀ c ∈ (ofEliminations problem eliminations).problem.constraints, ¬ c.rhs < 0 := by
  intro c member
  obtain ⟨row, given, _, rfl⟩ := mem_constraints_ofEliminations member
  show ¬ (oriented given).rhs < 0
  unfold oriented
  split
  next negative => exact turned _ negative
  next nonneg => exact nonneg

end StandardForm

end LinOpt
