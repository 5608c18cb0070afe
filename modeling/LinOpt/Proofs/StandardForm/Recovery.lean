import Mathlib.Data.List.GetD
import LinOpt.Proofs.Dense.Products
import LinOpt.StandardForm

/-!
# Recovered values

The values of the given variables are their offsets plus a linear function of the columns. A row
over the given variables is therefore a row over the columns, up to what the offsets contribute.
-/

namespace LinOpt

open Finset

namespace Column

/-- What one unit of a column contributes to a given variable. -/
def weight (index : Nat) : Column Rat → Rat
  | .structural i scale => if i = index then scale else 0
  | .slack _ | .surplus _ => 0

/-- The coefficient of a column when a row over the given variables is written over columns. -/
def coefficient (row : List Rat) : Column Rat → Rat
  | .structural i scale => row.getD i 0 * scale
  | .slack _ | .surplus _ => 0

theorem sum_weight {row : List Rat} {n : Nat} (fits : row.length ≤ n) (column : Column Rat) :
    ∑ i ∈ range n, row.getD i 0 * column.weight i = column.coefficient row := by
  cases column with
  | slack | surplus => simp [weight, coefficient]
  | structural index scale =>
    simp only [weight, coefficient, mul_ite, mul_zero, sum_ite_eq, mem_range]
    split
    · rfl
    next beyond => rw [List.getD_eq_default _ _ (by omega), zero_mul]

theorem coefficient_neg (row : List Rat) (column : Column Rat) :
    column.coefficient (row.map (- ·)) = -column.coefficient row := by
  cases column with
  | slack | surplus => simp [coefficient]
  | structural index scale =>
    by_cases small : index < row.length <;> simp [coefficient, List.getD, small]

end Column

namespace StandardForm

variable (form : StandardForm Rat ExtendedRat)

theorem recover_eq (values : List Rat) :
    form.recover values = form.offsets.mapIdx fun i offset =>
      offset + Scalar.dot (form.columns.map (Column.weight i)) values := by
  unfold recover
  congr 1
  funext i offset
  generalize form.columns = columns
  induction columns generalizing values offset with
  | nil => simp
  | cons column columns ih =>
    cases values with
    | nil => simp
    | cons value values =>
      rw [List.zip_cons_cons, List.foldl_cons, ih, List.map_cons, Scalar.dot_cons]
      cases column with
      | slack | surplus => simp [Column.weight]
      | structural index scale =>
        by_cases same : index = i
        · simp [Column.weight, same, add_assoc]
        · simp [Column.weight, same]

theorem length_recover (values : List Rat) :
    (form.recover values).length = form.offsets.length := by
  simp [recover]

theorem getElem?_recover (values : List Rat) (i : Nat) :
    (form.recover values)[i]? = form.offsets[i]?.map
      (· + Scalar.dot (form.columns.map (Column.weight i)) values) := by
  rw [recover_eq, List.getElem?_mapIdx]

/-- A row at the recovered values is its row over the columns, apart from a constant. -/
theorem dot_recover {row : List Rat} (fits : row.length ≤ form.offsets.length)
    (values : List Rat) :
    Scalar.dot row (form.recover values) = Scalar.dot row form.offsets +
      Scalar.dot (form.columns.map (Column.coefficient row)) values := by
  -- The double sum over variables and columns, with the columns outside.
  have exchanged (columns : List (Column Rat)) (values : List Rat) :
      ∑ i ∈ range form.offsets.length,
          row.getD i 0 * Scalar.dot (columns.map (Column.weight i)) values =
        Scalar.dot (columns.map (Column.coefficient row)) values := by
    induction columns generalizing values with
    | nil => simp
    | cons column columns ih =>
      cases values with
      | nil => simp
      | cons value values =>
        simp only [List.map_cons, Scalar.dot_cons, mul_add, sum_add_distrib, ih]
        simp only [← mul_assoc, ← sum_mul, Column.sum_weight fits]
  rw [Scalar.dot_eq_sum fits, Scalar.dot_eq_sum fits, ← exchanged, ← sum_add_distrib]
  refine sum_congr rfl fun i inside => ?_
  have small := mem_range.mp inside
  simp only [List.getD_eq_getElem?_getD, getElem?_recover, List.getElem?_eq_getElem small]
  simp [mul_add]

/-! ### The columns of one variable -/

theorem sum_mapIdx_single {γ : Type} (xs : List γ) (f : Nat → γ → Rat) (i : Nat)
    (others : ∀ k x, k ≠ i → f k x = 0) : (xs.mapIdx f).sum = (xs[i]?.map (f i)).getD 0 := by
  induction xs generalizing f i with
  | nil => simp
  | cons x xs ih =>
    rw [List.mapIdx_cons, List.sum_cons]
    cases i with
    | zero =>
      have rest : ∀ y ∈ xs.mapIdx (fun k => f (k + 1)), y = 0 := by
        intro y member
        obtain ⟨k, small, rfl⟩ := List.mem_mapIdx.mp member
        exact others (k + 1) _ (Nat.succ_ne_zero k)
      rw [List.sum_eq_zero rest]
      simp
    | succ i =>
      rw [others 0 x (Nat.succ_ne_zero i).symm, zero_add,
        ih (fun k => f (k + 1)) i fun k y different => others (k + 1) y (by omega)]
      simp

variable {names : List String} {eliminations : List (Elimination Rat)}

theorem structuralColumns_eq {α : Type} [Scalar α] (names : List String)
    (eliminations : List (Elimination α)) :
    structuralColumns names eliminations =
      ((names.zip eliminations).mapIdx fun i named =>
        named.2.columns.map fun column => ⟨named.1 ++ column.1, i, column.2⟩).flatten := rfl

theorem mem_structuralColumns {structural : Structural Rat}
    (member : structural ∈ structuralColumns names eliminations) :
    ∃ elimination, eliminations[structural.index]? = some elimination ∧
      ∃ column ∈ elimination.columns, column.2 = structural.scale := by
  rw [structuralColumns_eq] at member
  obtain ⟨block, isBlock, inside⟩ := List.mem_flatten.mp member
  obtain ⟨i, small, rfl⟩ := List.mem_mapIdx.mp isBlock
  obtain ⟨column, listed, rfl⟩ := List.mem_map.mp inside
  have bound : i < eliminations.length := by
    simp only [List.length_zip] at small
    omega
  rw [List.getElem_zip] at listed
  exact ⟨eliminations[i], List.getElem?_eq_getElem bound, column, listed, rfl⟩

/-- A sum over the columns of one variable is a sum over what its elimination lists. -/
theorem sum_structuralColumns (named : names.length = eliminations.length) {i : Nat}
    {elimination : Elimination Rat} (found : eliminations[i]? = some elimination)
    (f : Rat → Rat) :
    ((structuralColumns names eliminations).map fun structural =>
        if structural.index = i then f structural.scale else 0).sum =
      (elimination.columns.map fun column => f column.2).sum := by
  obtain ⟨small, rfl⟩ := List.getElem?_eq_some_iff.mp found
  have place : (names.zip eliminations)[i]? = some (names[i], eliminations[i]) := by
    simp [small, named]
  rw [structuralColumns_eq, List.map_flatten, List.sum_flatten, List.map_map,
    List.mapIdx_eq_zipIdx_map, List.map_map]
  -- The columns come in blocks, one for each variable, and only one block counts.
  have blocks := sum_mapIdx_single (names.zip eliminations) (fun k named =>
    (named.2.columns.map fun column => if k = i then f column.2 else 0).sum) i ?_
  · rw [List.mapIdx_eq_zipIdx_map] at blocks
    simpa [Function.comp_def, place] using blocks
  · intro k named different
    simp [different]

end StandardForm

end LinOpt
