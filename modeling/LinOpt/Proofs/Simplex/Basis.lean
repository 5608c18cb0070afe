import Mathlib.Data.List.GetD
import Mathlib.Tactic.Linarith
import LinOpt.Proofs.Dense.Inverse
import LinOpt.Simplex.Program

/-!
# Points and bases of a program

A point assigns a number to every column. A basis whose matrix has been inverted determines each
point that is zero outside of it: the inverse turns right sides into its coordinates, and turns
costs into prices of the rows under which the basic columns cost exactly what they are worth.
-/

namespace LinOpt.Simplex

open Finset Matrix

namespace Program

/-- One column for each row. -/
structure IsBasis {α : Type} [Scalar α] (program : Program α) (basis : List Nat) : Prop where
  length : basis.length = program.rows.length
  columns : ∀ j ∈ basis, j < program.numColumns

section Shape

variable {α : Type} [Scalar α] {program : Program α} {basis : List Nat}

theorem length_basisMatrix (program : Program α) (basis : List Nat) :
    (program.basisMatrix basis).length = program.rows.length := by
  simp [basisMatrix]

theorem IsBasis.square (valid : program.IsBasis basis) :
    ∀ row ∈ program.basisMatrix basis, row.length = program.rows.length := by
  intro row member
  obtain ⟨given, _, rfl⟩ := List.mem_map.mp member
  simpa using valid.length

theorem IsBasis.inverse_shape (valid : program.IsBasis basis) {inverse : List (List α)}
    (inverted : Dense.invert (program.basisMatrix basis) = some inverse) :
    inverse.length = program.rows.length ∧
      ∀ row ∈ inverse, row.length = program.rows.length := by
  have shape := Dense.invert_shape (fun row member => by
    rw [length_basisMatrix, valid.square row member]) inverted
  rwa [length_basisMatrix] at shape

/-- One value for each basic column. -/
theorem IsBasis.length_mulVec (valid : program.IsBasis basis) {inverse : List (List α)}
    (inverted : Dense.invert (program.basisMatrix basis) = some inverse) (right : List α) :
    (Dense.mulVec inverse right).length = basis.length := by
  rw [valid.length, Dense.mulVec, List.length_map, (valid.inverse_shape inverted).1]

theorem IsBasis.set (valid : program.IsBasis basis) {entering : Nat}
    (column : entering < program.numColumns) (row : Nat) :
    program.IsBasis (basis.set row entering) where
  length := by rw [List.length_set, valid.length]
  columns j member := by
    rcases List.mem_or_eq_of_mem_set member with member | rfl
    · exact valid.columns j member
    · exact column

end Shape

section Points

variable (program : Program Rat)

/-- The coefficient of row `i` in column `j`. -/
def coefficient (i j : Nat) : Rat := Dense.entry (program.rows.getD i []) j

def rightSide (i : Nat) : Rat := program.rhs.getD i 0

def cost (j : Nat) : Rat := program.costs.getD j 0

/-- The left side of row `i` at a point. -/
def leftSide (x : Nat → Rat) (i : Nat) : Rat :=
  ∑ j ∈ range program.numColumns, program.coefficient i j * x j

def objective (x : Nat → Rat) : Rat :=
  ∑ j ∈ range program.numColumns, program.cost j * x j

/-- The point solves the system and is not negative. -/
structure Feasible (x : Nat → Rat) : Prop where
  nonneg : ∀ j, 0 ≤ x j
  solves : ∀ i < program.rows.length, program.leftSide x i = program.rightSide i

/-- A feasible point that is zero outside the basis. -/
structure BasicPoint (basis : List Nat) (x : Nat → Rat) : Prop extends program.Feasible x where
  support : ∀ j, j ∉ basis → x j = 0

theorem leftSide_add_mul (x y : Nat → Rat) (t : Rat) (i : Nat) :
    program.leftSide (fun j => x j + t * y j) i =
      program.leftSide x i + t * program.leftSide y i := by
  simp only [leftSide, mul_sum, ← sum_add_distrib]
  exact sum_congr rfl fun j _ => by ring

theorem objective_add_mul (x y : Nat → Rat) (t : Rat) :
    program.objective (fun j => x j + t * y j) = program.objective x + t * program.objective y := by
  simp only [objective, mul_sum, ← sum_add_distrib]
  exact sum_congr rfl fun j _ => by ring

theorem columnDot_eq_sum (prices : List Rat) (j : Nat) :
    program.columnDot prices j =
      ∑ i ∈ range program.rows.length, program.coefficient i j * prices.getD i 0 := by
  rw [columnDot, Scalar.dot_eq_sum (n := program.rows.length) (by simp [Dense.column])]
  exact sum_congr rfl fun i _ => by rw [Dense.getD_column]; rfl

/-- Whatever the rows are priced at, the objective is what the rows pay and what the columns cost
beyond that. -/
theorem objective_priced (prices : List Rat) (z : Nat → Rat) :
    program.objective z =
      ∑ i ∈ range program.rows.length, prices.getD i 0 * program.leftSide z i +
        ∑ j ∈ range program.numColumns, (program.cost j - program.columnDot prices j) * z j := by
  have paid : ∑ i ∈ range program.rows.length, prices.getD i 0 * program.leftSide z i =
      ∑ j ∈ range program.numColumns, program.columnDot prices j * z j := by
    simp only [leftSide, columnDot_eq_sum, mul_sum, sum_mul]
    rw [sum_comm]
    exact sum_congr rfl fun j _ => sum_congr rfl fun i _ => by ring
  rw [paid, ← sum_add_distrib]
  exact sum_congr rfl fun j _ => by ring

end Points

end Program

/-- The point that has the given values in the basic columns and is zero elsewhere. -/
def spread (basis : List Nat) (values : List Rat) (j : Nat) : Rat :=
  ((basis.zip values).lookup j).getD 0

theorem lookup_cons_ne {basis : List Nat} {j k : Nat} (other : j ≠ k) (value : Rat)
    (values : List Rat) :
    ((k :: basis).zip (value :: values)).lookup j = (basis.zip values).lookup j := by
  have no : (j == k) = false := by simpa using other
  rw [List.zip_cons_cons, List.lookup_cons, no]

theorem lookup_zip_map (basis : List Nat) (x : Nat → Rat) (j : Nat) :
    (basis.zip (basis.map x)).lookup j = if j ∈ basis then some (x j) else none := by
  induction basis with
  | nil => rfl
  | cons k basis ih =>
    by_cases here : j = k
    · simp [here]
    · rw [List.map_cons, lookup_cons_ne here, ih]
      simp [here]

theorem lookup_zip_of_not_mem {α : Type} {basis : List Nat} {j : Nat} (outside : j ∉ basis)
    (values : List α) : (basis.zip values).lookup j = none := by
  rw [List.lookup_eq_none_iff]
  rintro ⟨k, value⟩ member
  have other : j ≠ k := fun same => outside (same ▸ (List.of_mem_zip member).1)
  simpa using other

theorem spread_of_not_mem {basis : List Nat} {j : Nat} (outside : j ∉ basis)
    (values : List Rat) : spread basis values j = 0 := by
  rw [spread, lookup_zip_of_not_mem outside]
  rfl

theorem map_spread {basis : List Nat} {values : List Rat} (distinct : basis.Nodup)
    (parallel : values.length = basis.length) : basis.map (spread basis values) = values := by
  induction basis generalizing values with
  | nil => simpa using (List.eq_nil_of_length_eq_zero parallel).symm
  | cons k basis ih =>
    cases values with
    | nil => simp at parallel
    | cons value values =>
      obtain ⟨fresh, distinct⟩ := List.nodup_cons.mp distinct
      have tail := ih distinct (by simpa using parallel)
      rw [List.map_cons]
      congr 1
      · simp [spread]
      · refine Eq.trans (List.map_congr_left fun j member => ?_) tail
        have other : j ≠ k := fun same => fresh (same ▸ member)
        rw [spread, lookup_cons_ne other]
        rfl

theorem spread_map {basis : List Nat} {x : Nat → Rat} (support : ∀ j, j ∉ basis → x j = 0)
    (j : Nat) : spread basis (basis.map x) j = x j := by
  rw [spread, lookup_zip_map]
  split
  · rfl
  next outside => exact (support j outside).symm

/-- A sum over the columns that is zero outside the basis. -/
theorem sum_basic {basis : List Nat} {n : Nat} (distinct : basis.Nodup)
    (columns : ∀ j ∈ basis, j < n) (f : Nat → Rat) (zero : ∀ j, j ∉ basis → f j = 0) :
    ∑ j ∈ range n, f j = ∑ k ∈ range basis.length, f (basis.getD k 0) := by
  -- The positions of the basis stand for distinct columns, and no other column contributes.
  symm
  refine sum_of_injOn (fun k => basis.getD k 0) ?_ ?_ ?_ fun _ _ => rfl
  · intro k first l second same
    have first : k < basis.length := by simpa using first
    have second : l < basis.length := by simpa using second
    simp only [List.getD_eq_getElem _ _ first, List.getD_eq_getElem _ _ second] at same
    exact (List.Nodup.getElem_inj_iff distinct).mp same
  · intro k small
    have small : k < basis.length := by simpa using small
    simpa [small] using columns _ (List.getElem_mem small)
  · intro j _ missed
    refine zero j fun member => missed ?_
    obtain ⟨k, small, rfl⟩ := List.getElem_of_mem member
    exact ⟨k, by simpa using small, by simp [small]⟩

namespace Program

variable {program : Program Rat} {basis : List Nat} {inverse : List (List Rat)}

namespace IsBasis

/-- The basis matrix as a matrix of linear algebra. -/
theorem toMatrix_apply (valid : program.IsBasis basis) (i k : Fin program.rows.length) :
    Dense.toMatrix program.rows.length (program.basisMatrix basis) i k =
      program.coefficient i (basis.getD k 0) := by
  have small : (k : Nat) < basis.length := valid.length.symm ▸ k.isLt
  simp [Dense.toMatrix, basisMatrix, coefficient, Dense.entry, List.getD, small]

theorem left_inverse (valid : program.IsBasis basis)
    (inverted : Dense.invert (program.basisMatrix basis) = some inverse) :
    Dense.toMatrix program.rows.length inverse *
      Dense.toMatrix program.rows.length (program.basisMatrix basis) = 1 :=
  Dense.invert_mul (length_basisMatrix program basis) valid.square inverted

theorem right_inverse (valid : program.IsBasis basis)
    (inverted : Dense.invert (program.basisMatrix basis) = some inverse) :
    Dense.toMatrix program.rows.length (program.basisMatrix basis) *
      Dense.toMatrix program.rows.length inverse = 1 :=
  Dense.mul_invert (length_basisMatrix program basis) valid.square inverted


/-- Each row of the inverse picks one basic column. -/
theorem inverse_row (valid : program.IsBasis basis)
    (inverted : Dense.invert (program.basisMatrix basis) = some inverse) {k l : Nat}
    (first : k < basis.length) (second : l < basis.length) :
    program.columnDot (inverse.getD k []) (basis.getD l 0) = if k = l then 1 else 0 := by
  have first : k < program.rows.length := valid.length ▸ first
  have second : l < program.rows.length := valid.length ▸ second
  have product := congrFun (congrFun (valid.left_inverse inverted) ⟨k, first⟩) ⟨l, second⟩
  rw [Matrix.mul_apply, Matrix.one_apply] at product
  simp only [valid.toMatrix_apply, Fin.mk.injEq] at product
  rw [← product, columnDot_eq_sum,
    ← Fin.sum_univ_eq_sum_range (fun i => program.coefficient i (basis.getD l 0) *
      (inverse.getD k []).getD i 0)]
  exact sum_congr rfl fun i _ => mul_comm _ _

theorem nodup (valid : program.IsBasis basis)
    (inverted : Dense.invert (program.basisMatrix basis) = some inverse) : basis.Nodup := by
  rw [List.nodup_iff_injective_getElem]
  intro k l same
  by_contra different
  have different : (k : Nat) ≠ l := fun h => different (Fin.ext h)
  -- The same column in two places would have both products with a row of the inverse.
  have self := valid.inverse_row inverted k.isLt k.isLt
  have other := valid.inverse_row inverted k.isLt l.isLt
  rw [List.getD_eq_getElem _ _ k.isLt, if_pos rfl] at self
  rw [List.getD_eq_getElem _ _ l.isLt, if_neg different] at other
  have same : basis[(k : Nat)] = basis[(l : Nat)] := same
  rw [← same, self] at other
  exact one_ne_zero other

/-- The left sides at a point that is zero outside the basis. -/
theorem leftSide_basic (valid : program.IsBasis basis) (distinct : basis.Nodup)
    {x : Nat → Rat} (support : ∀ j, j ∉ basis → x j = 0) (i : Fin program.rows.length) :
    program.leftSide x i = (Dense.toMatrix program.rows.length (program.basisMatrix basis) *ᵥ
      Dense.toVector program.rows.length (basis.map x)) i := by
  rw [leftSide, sum_basic distinct valid.columns _ fun j outside => by rw [support j outside,
    mul_zero], valid.length, ← Fin.sum_univ_eq_sum_range fun k =>
      program.coefficient i (basis.getD k 0) * x (basis.getD k 0)]
  simp only [Matrix.mulVec, dotProduct, valid.toMatrix_apply]
  refine sum_congr rfl fun k _ => ?_
  have small : (k : Nat) < basis.length := valid.length.symm ▸ k.isLt
  simp [Dense.toVector, List.getD, small]

/-- The inverse finds the only solution that is zero outside the basis. -/
theorem mulVec_inverse (valid : program.IsBasis basis)
    (inverted : Dense.invert (program.basisMatrix basis) = some inverse) {right : List Rat}
    {x : Nat → Rat} (support : ∀ j, j ∉ basis → x j = 0)
    (solves : ∀ i < program.rows.length, program.leftSide x i = right.getD i 0) :
    Dense.mulVec inverse right = basis.map x := by
  have system : Dense.toMatrix program.rows.length (program.basisMatrix basis) *ᵥ
      Dense.toVector program.rows.length (basis.map x) =
        Dense.toVector program.rows.length right := by
    funext i
    rw [← valid.leftSide_basic (valid.nodup inverted) support i]
    exact solves i i.isLt
  -- Multiplying the system by the inverse leaves the values of the basic columns.
  have coordinates := Dense.toVector_mulVec right (valid.inverse_shape inverted).2
  rw [← system, mulVec_mulVec, valid.left_inverse inverted, one_mulVec] at coordinates
  have high := (valid.length_mulVec inverted right).trans valid.length
  refine List.ext_getElem (by simp [high, valid.length]) fun k small _ => ?_
  have entry := congrFun coordinates ⟨k, high ▸ small⟩
  simpa [Dense.toVector, List.getD, small, valid.length, high ▸ small] using entry

/-- The inverse finds a solution for every right side. -/
theorem leftSide_spread (valid : program.IsBasis basis)
    (inverted : Dense.invert (program.basisMatrix basis) = some inverse) (right : List Rat)
    {i : Nat} (row : i < program.rows.length) :
    program.leftSide (spread basis (Dense.mulVec inverse right)) i = right.getD i 0 := by
  have distinct := valid.nodup inverted
  have parallel := valid.length_mulVec inverted right
  have left := valid.leftSide_basic distinct
    (fun j outside => spread_of_not_mem outside (Dense.mulVec inverse right)) ⟨i, row⟩
  rw [map_spread distinct parallel,
    Dense.toVector_mulVec right (valid.inverse_shape inverted).2, mulVec_mulVec,
    valid.right_inverse inverted, one_mulVec] at left
  exact left

/-- At the prices of a basis its columns have no reduced cost. -/
theorem columnDot_prices (valid : program.IsBasis basis)
    (inverted : Dense.invert (program.basisMatrix basis) = some inverse) {j : Nat}
    (basic : j ∈ basis) :
    program.columnDot (Dense.vecMul (basis.map program.cost) inverse) j = program.cost j := by
  obtain ⟨k, small, rfl⟩ := List.getElem_of_mem basic
  have shape := valid.inverse_shape inverted
  -- The prices times the basis matrix are the costs of the basis, for the inverse cancels.
  have prices := Dense.toVector_vecMul (v := basis.map program.cost) shape.1 shape.2
    (by simp [valid.length])
  have product := congrArg
    (· ᵥ* Dense.toMatrix program.rows.length (program.basisMatrix basis)) prices
  simp only [vecMul_vecMul, valid.left_inverse inverted, vecMul_one] at product
  have entry := congrFun product ⟨k, valid.length ▸ small⟩
  rw [columnDot_eq_sum, ← Fin.sum_univ_eq_sum_range (fun i => program.coefficient i basis[k] *
    (Dense.vecMul (basis.map program.cost) inverse).getD i 0)]
  simp only [Matrix.vecMul, dotProduct, valid.toMatrix_apply, List.getD_eq_getElem _ _ small]
    at entry
  calc _ = _ := sum_congr rfl fun i _ => mul_comm _ _
    _ = _ := entry
    _ = _ := by simp [Dense.toVector, List.getD, small]

end IsBasis

end Program

end LinOpt.Simplex
