import LinOpt.Proofs.Simplex.Run
import LinOpt.Simplex.PhaseOne

/-!
# The auxiliary program

A point of the auxiliary program is a value for each artificial column and a point of the program;
each artificial value is what its row still lacks. So the optimum is zero exactly if the program has
a feasible point. Rows can be left out when they follow from those that remain.
-/

namespace LinOpt.Simplex

open Finset

namespace Program

variable {program : Program Rat}

/-! ### Left sides and objective of the auxiliary program -/

theorem length_auxiliary {α : Type} [Scalar α] (program : Program α) :
    program.auxiliary.rows.length = program.rows.length := by
  simp [auxiliary, Dense.identity]

theorem numColumns_auxiliary {α : Type} [Scalar α] (program : Program α) :
    program.auxiliary.numColumns = program.rows.length + program.numColumns := by
  simp [auxiliary, numColumns]

/-- The artificial columns, from which phase one starts. -/
theorem isBasis_start {α : Type} [Scalar α] (program : Program α) :
    program.auxiliary.IsBasis (List.range program.rows.length) where
  length := by rw [List.length_range, length_auxiliary]
  columns j member := by
    rw [numColumns_auxiliary]
    have small := List.mem_range.mp member
    omega

theorem row_auxiliary {i : Nat} (row : i < program.rows.length) :
    program.auxiliary.rows.getD i [] =
      ((List.range program.rows.length).map fun j => if i = j then (1 : Rat) else 0) ++
        program.rows.getD i [] := by
  simp [auxiliary, Dense.identity, List.getD, row]

theorem coefficient_artificial {i j : Nat} (row : i < program.rows.length)
    (artificial : j < program.rows.length) :
    program.auxiliary.coefficient i j = if i = j then 1 else 0 := by
  rw [coefficient, row_auxiliary row, Dense.entry, List.getD_append _ _ _ _ (by simpa)]
  simp [List.getD, artificial]

theorem coefficient_given {i : Nat} (row : i < program.rows.length) (j : Nat) :
    program.auxiliary.coefficient i (program.rows.length + j) = program.coefficient i j := by
  rw [coefficient, row_auxiliary row, Dense.entry, List.getD_append_right _ _ _ _ (by simp)]
  simp [coefficient, Dense.entry]

theorem leftSide_auxiliary {i : Nat} (row : i < program.rows.length) (x : Nat → Rat) :
    program.auxiliary.leftSide x i =
      x i + program.leftSide (fun j => x (program.rows.length + j)) i := by
  rw [leftSide, numColumns_auxiliary, sum_range_add]
  congr 1
  · rw [sum_eq_single_of_mem i (mem_range.mpr row), coefficient_artificial row row, if_pos rfl,
      one_mul]
    intro j artificial other
    rw [coefficient_artificial row (mem_range.mp artificial), if_neg (Ne.symm other), zero_mul]
  · exact sum_congr rfl fun j _ => by rw [coefficient_given row]

/-- An artificial column has its one in its own row. -/
theorem leftSide_single {i column : Nat} (row : i < program.rows.length)
    (artificial : column < program.rows.length) :
    program.auxiliary.leftSide (Pi.single column 1) i = if i = column then 1 else 0 := by
  have given : program.leftSide
      (fun j => (Pi.single column (1 : Rat) : Nat → Rat) (program.rows.length + j)) i = 0 :=
    sum_eq_zero fun j _ => by
      dsimp only
      rw [Pi.single_eq_of_ne (by omega), mul_zero]
  rw [leftSide_auxiliary row, given, add_zero, Pi.single_apply]

theorem objective_auxiliary (x : Nat → Rat) :
    program.auxiliary.objective x = ∑ i ∈ range program.rows.length, x i := by
  rw [objective, numColumns_auxiliary, sum_range_add]
  have artificial : ∀ i ∈ range program.rows.length, program.auxiliary.cost i * x i = x i := by
    intro i member
    have small := mem_range.mp member
    rw [cost, auxiliary, List.getD_append _ _ _ _ (by simpa)]
    simp [List.getD, small]
  have given : ∀ j ∈ range program.numColumns,
      program.auxiliary.cost (program.rows.length + j) * x (program.rows.length + j) = 0 := by
    intro j member
    have small : j < program.costs.length := mem_range.mp member
    rw [cost, auxiliary, List.getD_append_right _ _ _ _ (by simp)]
    simp [List.getD, small]
  rw [sum_congr rfl artificial, sum_eq_zero given, add_zero]

/-- A feasible point solves the auxiliary program at no cost. -/
theorem Feasible.auxiliary {z : Nat → Rat} (feasible : program.Feasible z) :
    program.auxiliary.Feasible
      fun j => if j < program.rows.length then 0 else z (j - program.rows.length) where
  nonneg j := by
    split
    · exact le_rfl
    · exact feasible.nonneg _
  solves i row := by
    rw [length_auxiliary] at row
    have given : (fun j => if program.rows.length + j < program.rows.length then 0
        else z (program.rows.length + j - program.rows.length)) = z := by
      funext j
      simp
    rw [leftSide_auxiliary row, if_pos row, zero_add, given]
    exact feasible.solves i row

/-- Without artificial values a point of the auxiliary program is a point of the program. -/
theorem Feasible.of_auxiliary {x : Nat → Rat} (feasible : program.auxiliary.Feasible x)
    (zero : ∀ i < program.rows.length, x i = 0) :
    program.Feasible fun j => x (program.rows.length + j) where
  nonneg j := feasible.nonneg _
  solves i row := by
    have solved := feasible.solves i ((length_auxiliary program).symm ▸ row)
    rw [leftSide_auxiliary row, zero i row, zero_add] at solved
    exact solved

/-- The artificial columns are a basis whose basic point is the right side. -/
theorem start_basic (fits : program.rhs.length = program.rows.length)
    (nonneg : ∀ b ∈ program.rhs, 0 ≤ b) :
    program.auxiliary.IsBasis (List.range program.rows.length) ∧
      program.auxiliary.BasicPoint (List.range program.rows.length) (program.rhs.getD · 0) := by
  refine ⟨isBasis_start program, ⟨?_, ?_⟩, ?_⟩
  · intro j
    by_cases small : j < program.rhs.length
    · rw [List.getD_eq_getElem _ _ small]
      exact nonneg _ (List.getElem_mem small)
    · rw [List.getD_eq_default _ _ (by omega)]
  · intro i row
    rw [length_auxiliary] at row
    have given : program.leftSide
        (fun j => program.rhs.getD (program.rows.length + j) 0) i = 0 :=
      sum_eq_zero fun j _ => by
        dsimp only
        rw [List.getD_eq_default _ _ (by omega), mul_zero]
    rw [leftSide_auxiliary row, given, add_zero]
    rfl
  · intro j outside
    have large : ¬ j < program.rows.length := fun small => outside (List.mem_range.mpr small)
    exact List.getD_eq_default _ _ (by omega)

/-! ### Programs with some of the rows -/

theorem length_restrict {α : Type} [Scalar α] (program : Program α) (rows : List Nat) :
    (program.restrict rows).rows.length = rows.length := by
  simp [restrict]

theorem coefficient_restrict {rows : List Nat} {k : Nat} (small : k < rows.length) (j : Nat) :
    (program.restrict rows).coefficient k j = program.coefficient (rows.getD k 0) j := by
  simp [restrict, coefficient, List.getD, small]

theorem leftSide_restrict {rows : List Nat} {k : Nat} (small : k < rows.length) (x : Nat → Rat) :
    (program.restrict rows).leftSide x k = program.leftSide x (rows.getD k 0) :=
  sum_congr rfl fun j _ => by rw [coefficient_restrict small]

theorem rightSide_restrict {rows : List Nat} {k : Nat} (small : k < rows.length) :
    (program.restrict rows).rightSide k = program.rightSide (rows.getD k 0) := by
  simp [restrict, rightSide, List.getD, small]

/-- The point solves the given rows. -/
def Solves (program : Program Rat) (rows : List Nat) (x : Nat → Rat) : Prop :=
  ∀ r ∈ rows, program.leftSide x r = program.rightSide r

theorem feasible_restrict {rows : List Nat} {x : Nat → Rat} :
    (program.restrict rows).Feasible x ↔ (∀ j, 0 ≤ x j) ∧ program.Solves rows x := by
  constructor
  · intro feasible
    refine ⟨feasible.nonneg, fun r member => ?_⟩
    obtain ⟨k, small, rfl⟩ := List.getElem_of_mem member
    have solved := feasible.solves k (by rwa [length_restrict])
    rwa [leftSide_restrict small, rightSide_restrict small, List.getD_eq_getElem _ _ small]
      at solved
  · rintro ⟨nonneg, solves⟩
    refine ⟨nonneg, fun k row => ?_⟩
    have small : k < rows.length := by rwa [length_restrict] at row
    rw [leftSide_restrict small, rightSide_restrict small, List.getD_eq_getElem _ _ small]
    exact solves _ (List.getElem_mem small)

/-- The given rows imply all rows of the program. -/
def Implied (program : Program Rat) (rows : List Nat) : Prop :=
  ∀ x, program.Solves rows x →
    ∀ i < program.rows.length, program.leftSide x i = program.rightSide i

theorem Implied.feasible {rows : List Nat} (implied : program.Implied rows) {x : Nat → Rat}
    (feasible : (program.restrict rows).Feasible x) : program.Feasible x :=
  have ⟨nonneg, solves⟩ := feasible_restrict.mp feasible
  ⟨nonneg, implied x solves⟩

theorem Feasible.restrict {rows : List Nat} (inside : ∀ r ∈ rows, r < program.rows.length)
    {x : Nat → Rat} (feasible : program.Feasible x) : (program.restrict rows).Feasible x :=
  feasible_restrict.mpr ⟨feasible.nonneg, fun r member => feasible.solves r (inside r member)⟩

end Program

end LinOpt.Simplex
