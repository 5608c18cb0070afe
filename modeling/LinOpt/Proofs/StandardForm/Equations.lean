import Mathlib.Tactic.Linarith
import LinOpt.Proofs.Problem.Feasible
import LinOpt.Proofs.StandardForm.Recovery
import LinOpt.Proofs.StandardForm.Shape

/-!
# Rows as equations

Turning a row around keeps its meaning. With a slack or surplus column for each inequality, a point
satisfies the rows exactly when non-negative values of these columns complete it to a solution of
the equations.
-/

namespace LinOpt.StandardForm

theorem oriented_holds {constraint : Constraint Rat} {x : List Rat} :
    (oriented constraint).Holds x ↔ constraint.Holds x := by
  unfold oriented
  split
  · obtain ⟨name, coefficients, sense, rhs⟩ := constraint
    simp only [Constraint.Holds, Scalar.dot_neg_left]
    cases sense with
    | le => exact neg_le_neg_iff
    | eq => exact neg_inj
    | ge => exact neg_le_neg_iff
  · rfl

/-! ### Auxiliary columns -/

/-- What an auxiliary column is depends on the sense of its row alone. -/
theorem auxiliaryColumn?_some {α : Type} [Scalar α] {constraint : Constraint α} {row : Nat}
    {auxiliary : Auxiliary α} (found : auxiliaryColumn? constraint row = some auxiliary) :
    auxiliary.row = row ∧
      (constraint.sense = .le ∧ auxiliary.sign = 1 ∧ auxiliary.column = .slack row ∨
        constraint.sense = .ge ∧ auxiliary.sign = -1 ∧ auxiliary.column = .surplus row) := by
  unfold auxiliaryColumn? at found
  split at found
  · cases found
  next below =>
    cases found
    exact ⟨rfl, Or.inl ⟨below, rfl, rfl⟩⟩
  next above =>
    cases found
    exact ⟨rfl, Or.inr ⟨above, rfl, rfl⟩⟩

theorem auxiliaryColumn?_none {α : Type} [Scalar α] {constraint : Constraint α} {row : Nat} :
    auxiliaryColumn? constraint row = none ↔ constraint.sense = .eq := by
  unfold auxiliaryColumn?
  cases constraint.sense <;> simp

theorem mem_auxiliaryColumns {α : Type} [Scalar α] {constraints : List (Constraint α)}
    {auxiliary : Auxiliary α} (member : auxiliary ∈ auxiliaryColumns constraints) :
    ∃ constraint, constraints[auxiliary.row]? = some constraint ∧
      auxiliaryColumn? constraint auxiliary.row = some auxiliary := by
  obtain ⟨⟨constraint, row⟩, place, found⟩ := List.mem_filterMap.mp member
  obtain rfl := (auxiliaryColumn?_some found).1
  exact ⟨constraint, List.mem_zipIdx_iff_getElem?.mp place, found⟩

variable {constraints : List (Constraint Rat)}

theorem column_of_auxiliary {auxiliary : Auxiliary Rat}
    (member : auxiliary ∈ auxiliaryColumns constraints) :
    auxiliary.column = .slack auxiliary.row ∨ auxiliary.column = .surplus auxiliary.row := by
  obtain ⟨constraint, _, found⟩ := mem_auxiliaryColumns member
  rcases (auxiliaryColumn?_some found).2 with ⟨_, _, slack⟩ | ⟨_, _, surplus⟩
  · exact Or.inl slack
  · exact Or.inr surplus

/-- Auxiliary columns contribute to no row over the given variables. -/
theorem coefficient_auxiliary {auxiliary : Auxiliary Rat}
    (member : auxiliary ∈ auxiliaryColumns constraints) (coefficients : List Rat) :
    auxiliary.column.coefficient coefficients = 0 := by
  rcases column_of_auxiliary member with same | same <;> rw [same] <;> rfl

theorem weight_auxiliary {auxiliary : Auxiliary Rat}
    (member : auxiliary ∈ auxiliaryColumns constraints) (i : Nat) :
    auxiliary.column.weight i = 0 := by
  rcases column_of_auxiliary member with same | same <;> rw [same] <;> rfl

theorem sum_auxiliaryColumns (f : Auxiliary Rat → Rat) :
    ((auxiliaryColumns constraints).map f).sum =
      (constraints.mapIdx fun row c => ((auxiliaryColumn? c row).map f).getD 0).sum := by
  rw [List.mapIdx_eq_zipIdx_map, auxiliaryColumns]
  generalize constraints.zipIdx = places
  induction places with
  | nil => rfl
  | cons place places ih =>
    obtain ⟨c, row⟩ := place
    cases found : auxiliaryColumn? c row with
    | none => simp [found, ih]
    | some auxiliary => simp [found, ih]

/-- What the auxiliary columns contribute to a row. -/
def correction (constraints : List (Constraint Rat)) (row : Nat) (values : List Rat) : Rat :=
  Scalar.dot ((auxiliaryColumns constraints).map fun a => if a.row = row then a.sign else 0) values

/-- How much the left side of a row is below its right side. -/
def gap (constraints : List (Constraint Rat)) (x : List Rat) (row : Nat) : Rat :=
  constraints[row]?.elim 0 fun c => c.rhs - Scalar.dot c.coefficients x

/-- The values of the auxiliary columns that make the rows equations. -/
def auxiliaryValues (constraints : List (Constraint Rat)) (x : List Rat) : List Rat :=
  (auxiliaryColumns constraints).map fun a => a.sign * gap constraints x a.row

theorem gap_eq {row : Nat} {constraint : Constraint Rat} (x : List Rat)
    (place : constraints[row]? = some constraint) :
    gap constraints x row = constraint.rhs - Scalar.dot constraint.coefficients x := by
  rw [gap, place]
  rfl

/-- Only the row's own auxiliary column counts, with the square of its sign. -/
theorem correction_auxiliaryValues {row : Nat} {constraint : Constraint Rat} {x : List Rat}
    (place : constraints[row]? = some constraint) (holds : constraint.Holds x) :
    correction constraints row (auxiliaryValues constraints x) = gap constraints x row := by
  rw [correction, auxiliaryValues, Scalar.dot_map_map, sum_auxiliaryColumns,
    sum_mapIdx_single _ _ row, place]
  · cases found : auxiliaryColumn? constraint row with
    | none =>
      -- Without an auxiliary column the row is an equation already.
      have sense : constraint.sense = .eq := auxiliaryColumn?_none.mp found
      have solved : Scalar.dot constraint.coefficients x = constraint.rhs := by
        simpa only [Constraint.Holds, sense, Sense.Holds] using holds
      simp [found, gap_eq x place, solved]
    | some auxiliary =>
      obtain ⟨rfl, ⟨_, sign, _⟩ | ⟨_, sign, _⟩⟩ := auxiliaryColumn?_some found
      · simp [found, sign]
      · simp [found, sign]
  · intro k c different
    cases found : auxiliaryColumn? c k with
    | none => rfl
    | some auxiliary =>
      have elsewhere : auxiliary.row ≠ row := (auxiliaryColumn?_some found).1 ▸ different
      simp [elsewhere]

theorem auxiliaryValues_nonneg {x : List Rat} (holds : ∀ c ∈ constraints, c.Holds x) :
    ∀ value ∈ auxiliaryValues constraints x, 0 ≤ value := by
  intro value member
  obtain ⟨auxiliary, listed, rfl⟩ := List.mem_map.mp member
  obtain ⟨constraint, place, found⟩ := mem_auxiliaryColumns listed
  have satisfied := holds constraint (List.mem_of_getElem? place)
  rw [gap_eq x place]
  obtain ⟨_, ⟨below, sign, _⟩ | ⟨above, sign, _⟩⟩ := auxiliaryColumn?_some found
  · simp only [Constraint.Holds, below, Sense.Holds] at satisfied
    rw [sign, one_mul]
    exact sub_nonneg.mpr satisfied
  · simp only [Constraint.Holds, above, Sense.Holds] at satisfied
    rw [sign, neg_one_mul, neg_sub]
    exact sub_nonneg.mpr satisfied

/-- The auxiliary columns of a row have the sign that its sense asks for. -/
theorem sign_of_row {row : Nat} {constraint : Constraint Rat}
    (place : constraints[row]? = some constraint) {auxiliary : Auxiliary Rat}
    (listed : auxiliary ∈ auxiliaryColumns constraints) (own : auxiliary.row = row) :
    constraint.sense = .le ∧ auxiliary.sign = 1 ∨
      constraint.sense = .ge ∧ auxiliary.sign = -1 := by
  obtain ⟨other, found, created⟩ := mem_auxiliaryColumns listed
  rw [own, place] at found
  obtain rfl := Option.some.inj found
  rcases (auxiliaryColumn?_some created).2 with ⟨below, sign, _⟩ | ⟨above, sign, _⟩
  · exact Or.inl ⟨below, sign⟩
  · exact Or.inr ⟨above, sign⟩

theorem correction_nonneg {row : Nat} {constraint : Constraint Rat} {values : List Rat}
    (place : constraints[row]? = some constraint) (nonneg : ∀ value ∈ values, 0 ≤ value)
    (sense : constraint.sense ≠ .ge) : 0 ≤ correction constraints row values := by
  refine Scalar.dot_nonneg (fun coefficient member => ?_) nonneg
  obtain ⟨auxiliary, listed, rfl⟩ := List.mem_map.mp member
  split
  next own =>
    rcases sign_of_row place listed own with ⟨_, sign⟩ | ⟨above, _⟩
    · rw [sign]
      exact zero_le_one
    · exact absurd above sense
  · exact le_rfl

theorem correction_nonpos {row : Nat} {constraint : Constraint Rat} {values : List Rat}
    (place : constraints[row]? = some constraint) (nonneg : ∀ value ∈ values, 0 ≤ value)
    (sense : constraint.sense ≠ .le) : correction constraints row values ≤ 0 := by
  refine Scalar.dot_nonpos (fun coefficient member => ?_) nonneg
  obtain ⟨auxiliary, listed, rfl⟩ := List.mem_map.mp member
  split
  next own =>
    rcases sign_of_row place listed own with ⟨below, _⟩ | ⟨_, sign⟩
    · exact absurd below sense
    · rw [sign]
      exact neg_nonpos.mpr zero_le_one
  · exact le_rfl

theorem holds_of_correction {row : Nat} {constraint : Constraint Rat} {x values : List Rat}
    (place : constraints[row]? = some constraint) (nonneg : ∀ value ∈ values, 0 ≤ value)
    (balanced : Scalar.dot constraint.coefficients x + correction constraints row values =
      constraint.rhs) : constraint.Holds x := by
  -- A slack only adds to the left side, a surplus only takes away.
  have up := correction_nonneg place nonneg
  have down := correction_nonpos place nonneg
  unfold Constraint.Holds
  cases sense : constraint.sense with
  | le =>
    have added := up (by simp [sense])
    show Scalar.dot constraint.coefficients x ≤ constraint.rhs
    linarith
  | eq =>
    have added := up (by simp [sense])
    have removed := down (by simp [sense])
    show Scalar.dot constraint.coefficients x = constraint.rhs
    linarith
  | ge =>
    have removed := down (by simp [sense])
    show constraint.rhs ≤ Scalar.dot constraint.coefficients x
    linarith

theorem equation_holds {row : Nat} {constraint : Constraint Rat} {x values : List Rat}
    (fits : constraint.coefficients.length = x.length) :
    (equation (auxiliaryColumns constraints) row constraint).Holds (x ++ values) ↔
      Scalar.dot constraint.coefficients x + correction constraints row values =
        constraint.rhs := by
  simp only [Constraint.Holds, equation, Sense.Holds, Scalar.dot_append fits, correction]

/-- A point satisfies the rows if and only if it extends to a solution of the equations. -/
theorem equations_solvable {x : List Rat}
    (fits : ∀ c ∈ constraints, c.coefficients.length = x.length) :
    (∀ c ∈ constraints, c.Holds x) ↔
      ∃ values, values.length = (auxiliaryColumns constraints).length ∧
        (∀ value ∈ values, 0 ≤ value) ∧
        ∀ c ∈ constraints.mapIdx (equation (auxiliaryColumns constraints)),
          c.Holds (x ++ values) := by
  constructor
  · intro holds
    refine ⟨auxiliaryValues constraints x, List.length_map _, auxiliaryValues_nonneg holds, ?_⟩
    intro c member
    obtain ⟨row, small, rfl⟩ := List.mem_mapIdx.mp member
    have place := List.getElem?_eq_getElem small
    have inside := List.getElem_mem small
    rw [equation_holds (fits _ inside),
      correction_auxiliaryValues place (holds _ inside), gap_eq x place]
    exact add_sub_cancel _ _
  · rintro ⟨values, _, nonneg, solves⟩ c member
    obtain ⟨row, small, rfl⟩ := List.getElem_of_mem member
    have solved := solves _ (List.mem_mapIdx.mpr ⟨row, small, rfl⟩)
    rw [equation_holds (fits _ member)] at solved
    exact holds_of_correction (List.getElem?_eq_getElem small) nonneg solved

end LinOpt.StandardForm
