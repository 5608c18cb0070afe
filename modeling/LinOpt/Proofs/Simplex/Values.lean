import Mathlib.LinearAlgebra.Matrix.NonsingularInverse
import LinOpt.Proofs.Simplex.Independence

/-!
# The values of a basis

The inverse of linear algebra gives a nonsingular basis its values and its objective, whether or not
elimination finds an inverse. They are those of the only solution that is zero outside the basis,
and where elimination does find an inverse, the numbers of the iteration are the same.
-/

namespace LinOpt.Simplex

open Finset Matrix

namespace Program

variable (program : Program Rat)

/-- The matrix of the columns of a basis. -/
def matrix (basis : List Nat) : Matrix (Fin program.rows.length) (Fin program.rows.length) Rat :=
  Dense.toMatrix program.rows.length (program.basisMatrix basis)

/-- The values of the basic columns. -/
noncomputable def basicValues (basis : List Nat) : Fin program.rows.length → Rat :=
  (program.matrix basis)⁻¹ *ᵥ Dense.toVector program.rows.length program.rhs

/-- What each unit of a column takes from the basic columns. -/
noncomputable def basicEntries (basis : List Nat) (j : Nat) : Fin program.rows.length → Rat :=
  (program.matrix basis)⁻¹ *ᵥ Dense.toVector program.rows.length (Dense.column program.rows j)

/-- What the basic columns cost at their values. -/
noncomputable def basicObjective (basis : List Nat) : Rat :=
  Dense.toVector program.rows.length (basis.map program.cost) ⬝ᵥ program.basicValues basis

/-- A nonsingular basis without negative values. -/
structure FeasibleBasis (basis : List Nat) : Prop extends program.IsBasis basis where
  nonsingular : IsUnit (program.matrix basis)
  nonneg : ∀ k, 0 ≤ program.basicValues basis k

/-- A solution of the rows that is zero outside the basis. -/
structure Determined (basis : List Nat) (x : Nat → Rat) : Prop where
  support : ∀ j, j ∉ basis → x j = 0
  solves : ∀ i < program.rows.length, program.leftSide x i = program.rightSide i

variable {program} {basis : List Nat} {x : Nat → Rat}

theorem BasicPoint.determined (point : program.BasicPoint basis x) : program.Determined basis x :=
  ⟨point.support, point.solves⟩

/-! ### Independence -/

/-- The columns of a nonsingular matrix are different. -/
theorem IsBasis.nodup_of_isUnit (valid : program.IsBasis basis)
    (nonsingular : IsUnit (program.matrix basis)) : basis.Nodup := by
  rw [List.nodup_iff_injective_getElem]
  intro k l same
  have first : (k : Nat) < program.rows.length := valid.length ▸ k.isLt
  have second : (l : Nat) < program.rows.length := valid.length ▸ l.isLt
  -- A matrix that takes two unit vectors to the same column takes them to be the same.
  have columns : program.matrix basis *ᵥ Pi.single ⟨k, first⟩ 1 =
      program.matrix basis *ᵥ Pi.single ⟨l, second⟩ 1 := by
    funext i
    simp only [matrix, mulVec_single_one, Matrix.col_apply, valid.toMatrix_apply,
      List.getD_eq_getElem _ _ k.isLt, List.getD_eq_getElem _ _ l.isLt]
    exact congrArg _ same
  have units := congrFun (mulVec_injective_iff_isUnit.mpr nonsingular columns) ⟨k, first⟩
  by_contra different
  have other : (⟨k, first⟩ : Fin program.rows.length) ≠ ⟨l, second⟩ := fun same =>
    different (Fin.ext (Fin.mk.inj same))
  rw [Pi.single_eq_same, Pi.single_eq_of_ne other] at units
  exact one_ne_zero units

/-! ### Determined points -/

/-- The inverse gives the coordinates of a point that is zero outside the basis. -/
theorem IsBasis.inverse_mulVec (valid : program.IsBasis basis)
    (nonsingular : IsUnit (program.matrix basis)) (support : ∀ j, j ∉ basis → x j = 0)
    {right : List Rat}
    (solves : ∀ i < program.rows.length, program.leftSide x i = right.getD i 0) :
    (program.matrix basis)⁻¹ *ᵥ Dense.toVector program.rows.length right =
      Dense.toVector program.rows.length (basis.map x) := by
  have system : program.matrix basis *ᵥ Dense.toVector program.rows.length (basis.map x) =
      Dense.toVector program.rows.length right := by
    funext i
    have left := valid.leftSide_basic (valid.nodup_of_isUnit nonsingular) support i
    exact left.symm.trans (solves i i.isLt)
  have invertible := (isUnit_iff_isUnit_det _).mp nonsingular
  rw [← system, mulVec_mulVec, nonsing_inv_mul _ invertible, one_mulVec]

theorem Determined.basicValues_eq (determined : program.Determined basis x)
    (valid : program.IsBasis basis) (nonsingular : IsUnit (program.matrix basis)) :
    program.basicValues basis = Dense.toVector program.rows.length (basis.map x) :=
  valid.inverse_mulVec nonsingular determined.support determined.solves

theorem Determined.basicValues_apply (determined : program.Determined basis x)
    (valid : program.IsBasis basis) (nonsingular : IsUnit (program.matrix basis))
    (k : Fin program.rows.length) : program.basicValues basis k = x (basis.getD k 0) := by
  have small : (k : Nat) < basis.length := valid.length.symm ▸ k.isLt
  rw [determined.basicValues_eq valid nonsingular]
  simp [Dense.toVector, List.getD, small]

/-- The basic values determine a point. -/
theorem IsBasis.determined (valid : program.IsBasis basis)
    (nonsingular : IsUnit (program.matrix basis)) :
    program.Determined basis (spread basis (List.ofFn (program.basicValues basis))) where
  support j outside := spread_of_not_mem outside _
  solves i row := by
    have distinct := valid.nodup_of_isUnit nonsingular
    have parallel : (List.ofFn (program.basicValues basis)).length = basis.length := by
      rw [List.length_ofFn, valid.length]
    have left := valid.leftSide_basic distinct
      (fun j outside => spread_of_not_mem outside (List.ofFn (program.basicValues basis))) ⟨i, row⟩
    have coordinates : Dense.toVector program.rows.length (List.ofFn (program.basicValues basis)) =
        program.basicValues basis := by
      funext k
      simp [Dense.toVector, List.getD]
    have invertible := (isUnit_iff_isUnit_det _).mp nonsingular
    -- The matrix takes the values back to the right side.
    rw [map_spread distinct parallel, coordinates, basicValues, ← matrix, mulVec_mulVec,
      mul_nonsing_inv _ invertible, one_mulVec] at left
    exact left

theorem Determined.basicObjective_eq (determined : program.Determined basis x)
    (valid : program.IsBasis basis) (nonsingular : IsUnit (program.matrix basis)) :
    program.basicObjective basis = program.objective x := by
  rw [objective, sum_basic (valid.nodup_of_isUnit nonsingular) valid.columns _ fun j outside => by
      rw [determined.support j outside, mul_zero], valid.length,
    ← Fin.sum_univ_eq_sum_range fun k => program.cost (basis.getD k 0) * x (basis.getD k 0)]
  rw [basicObjective, dotProduct]
  refine sum_congr rfl fun k _ => ?_
  have small : (k : Nat) < basis.length := valid.length.symm ▸ k.isLt
  rw [determined.basicValues_apply valid nonsingular]
  simp [Dense.toVector, List.getD, small]

/-! ### Feasible bases -/

theorem FeasibleBasis.exists_point (feasible : program.FeasibleBasis basis) :
    ∃ x, program.BasicPoint basis x := by
  have determined := feasible.determined feasible.nonsingular
  refine ⟨_, ⟨fun j => ?_, determined.solves⟩, determined.support⟩
  by_cases basic : j ∈ basis
  · obtain ⟨k, small, rfl⟩ := List.getElem_of_mem basic
    have value := feasible.nonneg ⟨k, feasible.length ▸ small⟩
    rwa [determined.basicValues_apply feasible.toIsBasis feasible.nonsingular,
      List.getD_eq_getElem _ _ small] at value
  · exact (determined.support j basic).ge

theorem BasicPoint.feasibleBasis (point : program.BasicPoint basis x)
    (valid : program.IsBasis basis) (nonsingular : IsUnit (program.matrix basis)) :
    program.FeasibleBasis basis where
  toIsBasis := valid
  nonsingular := nonsingular
  nonneg k := by
    rw [point.determined.basicValues_apply valid nonsingular]
    exact point.nonneg _

/-! ### Iterations -/

section Iterations

variable {inverse : List (List Rat)} (valid : program.IsBasis basis)
  (inverted : Dense.invert (program.basisMatrix basis) = some inverse)

include valid inverted

/-- Where elimination finds an inverse, it is the one of linear algebra. -/
theorem IsBasis.inverse_eq :
    (program.matrix basis)⁻¹ = Dense.toMatrix program.rows.length inverse :=
  inv_eq_left_inv (valid.left_inverse inverted)

theorem IsBasis.nonsingular : IsUnit (program.matrix basis) :=
  valid.isUnit (valid.independent inverted)

theorem IsBasis.toVector_inverse (right : List Rat) :
    Dense.toVector program.rows.length (Dense.mulVec inverse right) =
      (program.matrix basis)⁻¹ *ᵥ Dense.toVector program.rows.length right := by
  rw [Dense.toVector_mulVec right (valid.inverse_shape inverted).2, valid.inverse_eq inverted]

theorem IsBasis.basicEntries_apply (j : Nat) (k : Fin program.rows.length) :
    program.basicEntries basis j k =
      (Dense.mulVec inverse (Dense.column program.rows j)).getD k 0 :=
  (congrFun (valid.toVector_inverse inverted (Dense.column program.rows j)) k).symm

theorem IsBasis.getElem?_mulVec (j : Nat) (k : Fin program.rows.length) :
    (Dense.mulVec inverse (Dense.column program.rows j))[(k : Nat)]? =
      some (program.basicEntries basis j k) := by
  have small : (k : Nat) < (Dense.mulVec inverse (Dense.column program.rows j)).length := by
    rw [valid.length_mulVec inverted, valid.length]
    exact k.isLt
  rw [valid.basicEntries_apply inverted, List.getD_eq_getElem _ _ small,
    List.getElem?_eq_getElem small]

end Iterations

/-- The values of an iteration are those of the basis. -/
theorem IsBasis.iterate_values (valid : program.IsBasis basis) {pricing : PricingRule}
    {tolerance : Rat} {iterate : Iterate Rat}
    (evaluated : Simplex.iterate pricing tolerance program basis = some iterate) :
    Dense.toVector program.rows.length iterate.values = program.basicValues basis := by
  obtain ⟨inverse, inverted, values, -, -⟩ := iterate_some evaluated
  rw [values, valid.toVector_inverse inverted]
  rfl

theorem IsBasis.getElem?_values (valid : program.IsBasis basis) {pricing : PricingRule}
    {tolerance : Rat} {iterate : Iterate Rat}
    (evaluated : Simplex.iterate pricing tolerance program basis = some iterate)
    (k : Fin program.rows.length) :
    iterate.values[(k : Nat)]? = some (program.basicValues basis k) := by
  have small : (k : Nat) < iterate.values.length := by
    rw [(iterate_shape valid evaluated).1, valid.length]
    exact k.isLt
  rw [← valid.iterate_values evaluated, Dense.toVector, List.getD_eq_getElem _ _ small,
    List.getElem?_eq_getElem small]

/-- An iteration without negative values shows that its basis is feasible. -/
theorem FeasibleBasis.of_iterate (valid : program.IsBasis basis) {pricing : PricingRule}
    {tolerance : Rat} {iterate : Iterate Rat}
    (evaluated : Simplex.iterate pricing tolerance program basis = some iterate)
    (nonneg : ∀ value ∈ iterate.values, 0 ≤ value) : program.FeasibleBasis basis where
  toIsBasis := valid
  nonsingular := by
    obtain ⟨inverse, inverted, -, -, -⟩ := iterate_some evaluated
    exact valid.nonsingular inverted
  nonneg k := by
    have parallel := (iterate_shape valid evaluated).1.trans valid.length
    have small : (k : Nat) < iterate.values.length := parallel.symm ▸ k.isLt
    rw [← valid.iterate_values evaluated, Dense.toVector, List.getD_eq_getElem _ _ small]
    exact nonneg _ (List.getElem_mem small)

end Program

end LinOpt.Simplex
