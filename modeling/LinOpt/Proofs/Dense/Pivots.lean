import Mathlib.LinearAlgebra.Matrix.ToLinearEquiv
import LinOpt.Proofs.Dense.Inverse

/-!
# Pivots of nonsingular matrices

A step of elimination keeps the vectors to which all rows are orthogonal. If the largest entry that
is left in a column is zero, then the columns done so far combine to that column, and there is such
a vector other than zero. So elimination of a nonsingular matrix only ever meets pivots other than
zero, and when it fails over the rational numbers it is because of the threshold. A matrix that
elimination returns is the inverse on both sides, so it returns none for a singular matrix.
-/

namespace LinOpt.Dense

open Finset Matrix

theorem magnitudeLe_iff (x y : Rat) : Scalar.magnitudeLe x y = true ↔ |x| ≤ |y| := by
  simp [Scalar.magnitudeLe, Scalar.isNaN, Scalar.abs_eq]

/-! ### The largest entry of a column -/

theorem foldl_magnitude (f : Nat → Rat) (indices : List Nat) (best : Nat) :
    ∀ i ∈ best :: indices, |f i| ≤ |f (indices.foldl
      (fun best i => if Scalar.magnitudeLe (f best) (f i) then i else best) best)| := by
  induction indices generalizing best with
  | nil => simp
  | cons next indices ih =>
    intro i member
    rw [List.foldl_cons]
    simp only [magnitudeLe_iff] at ih ⊢
    split
    next grows =>
      -- The new best entry is no smaller than the old one.
      rcases List.mem_cons.mp member with rfl | later
      · exact grows.trans (ih next next (by simp))
      · exact ih next i later
    next keeps =>
      rcases List.mem_cons.mp member with rfl | later
      · exact ih i i (by simp)
      · rcases List.mem_cons.mp later with rfl | later
        · exact (le_of_lt (not_le.mp keeps)).trans (ih best best (by simp))
        · exact ih best i (List.mem_cons_of_mem _ later)

/-- At and below the diagonal no entry of the column is larger than the pivot. -/
theorem abs_le_pivot {rows : List (Augmented Rat)} {i j : Nat} {row pivoted : Augmented Rat}
    (low : j ≤ i) (found : rows[i]? = some row)
    (pivot : rows[pivotRow rows j]? = some pivoted) :
    |entry row.left j| ≤ |entry pivoted.left j| := by
  obtain ⟨inside, _⟩ := List.getElem?_eq_some_iff.mp found
  have listed : i ∈ j :: (List.range rows.length).drop (j + 1) := by
    rcases low.eq_or_lt with rfl | below
    · exact List.mem_cons_self
    · refine List.mem_cons_of_mem _ (List.mem_drop_iff_getElem.mpr ⟨i - (j + 1), ?_, ?_⟩)
      · rw [List.length_range]
        omega
      · rw [List.getElem_range]
        omega
  have largest := foldl_magnitude
    (fun i => ((rows[i]?).map fun row => entry row.left j).getD 0) _ j i listed
  change _ ≤ |((rows[pivotRow rows j]?).map fun row => entry row.left j).getD 0| at largest
  simpa [found, pivot] using largest

/-! ### Vectors to which all rows are orthogonal -/

/-- The left part of every row is orthogonal to the vector. -/
def Orthogonal (rows : List (Augmented Rat)) (v : List Rat) : Prop :=
  ∀ row ∈ rows, Scalar.dot row.left v = 0

/-- Subtracting the diagonal row from the others can be undone, for it is there afterwards. -/
theorem Orthogonal.of_clear {rows : List (Augmented Rat)} {j : Nat} {scaled : Augmented Rat}
    {v : List Rat} (pivot : rows[j]? = some scaled)
    (wide : ∀ row ∈ rows, row.left.length = scaled.left.length)
    (orthogonal : Orthogonal (rows.mapIdx fun k row =>
      if k = j || entry row.left j == 0 then row
      else row.subMul (entry row.left j) scaled) v) : Orthogonal rows v := by
  obtain ⟨position, rfl⟩ := List.getElem?_eq_some_iff.mp pivot
  have diagonal : Scalar.dot rows[j].left v = 0 := by
    refine orthogonal rows[j] (List.mem_mapIdx.mpr ⟨j, position, ?_⟩)
    simp
  intro row member
  obtain ⟨k, small, rfl⟩ := List.getElem_of_mem member
  have after := orthogonal _ (List.mem_mapIdx.mpr ⟨k, small, rfl⟩)
  split at after
  · exact after
  · rwa [Augmented.subMul, dot_subMul (wide _ member), diagonal, mul_zero, sub_zero] at after

/-- Exchanging two rows and dividing one of them can be undone. -/
theorem Orthogonal.of_exchange {rows : List (Augmented Rat)} {i j : Nat}
    {pivoted displaced : Augmented Rat} {divisor : Rat} {v : List Rat}
    (above : rows[i]? = some pivoted) (below : rows[j]? = some displaced) (nonzero : divisor ≠ 0)
    (orthogonal : Orthogonal ((rows.set i displaced).set j (pivoted.div divisor)) v) :
    Orthogonal rows v := by
  obtain ⟨inside, rfl⟩ := List.getElem?_eq_some_iff.mp above
  obtain ⟨position, rfl⟩ := List.getElem?_eq_some_iff.mp below
  intro row member
  obtain ⟨k, small, rfl⟩ := List.getElem_of_mem member
  -- Row `i` is on the diagonal now, row `j` in the place of row `i`, and no other row has moved.
  by_cases moved : k = i
  · subst moved
    have scaled := orthogonal _ (List.mem_set (by simpa using position) _)
    rw [Augmented.div, dot_map_div, div_eq_zero_iff] at scaled
    exact scaled.resolve_right nonzero
  · by_cases up : k = j
    · subst up
      refine orthogonal _ (List.mem_iff_getElem.mpr ⟨i, by simpa using inside, ?_⟩)
      rw [List.getElem_set_ne moved, List.getElem_set_self]
    · refine orthogonal _ (List.mem_iff_getElem.mpr ⟨k, by simpa using small, ?_⟩)
      rw [List.getElem_set_ne (Ne.symm up), List.getElem_set_ne (Ne.symm moved)]

/-- The rows before a step are combinations of the rows after it. -/
theorem Orthogonal.of_step {matrix : List (List Rat)} {rows next : List (Augmented Rat)} {j : Nat}
    {v : List Rat} (reduced : Reduced matrix j rows)
    (returned : eliminateColumn rows j = some next) (orthogonal : Orthogonal next v) :
    Orthogonal rows v := by
  obtain ⟨i, pivoted, displaced, low, above, below, nonzero, rfl⟩ := eliminateColumn_some returned
  obtain ⟨position, _⟩ := List.getElem?_eq_some_iff.mp below
  have scaled := ((reduced.tracks _ (List.mem_of_getElem? above)).div (entry pivoted.left j)).left
  refine Orthogonal.of_exchange above below nonzero (orthogonal.of_clear ?_ fun row member => ?_)
  · exact List.getElem?_set_self (by simpa using position)
  · -- All rows are as long as the matrix, the ones that were exchanged included.
    rw [scaled]
    rcases List.mem_or_eq_of_mem_set member with member | rfl
    · rcases List.mem_or_eq_of_mem_set member with member | rfl
      · exact (reduced.tracks row member).left
      · exact (reduced.tracks _ (List.mem_of_getElem? below)).left
    · exact scaled

/-- A vector orthogonal to all rows that elimination reaches is orthogonal to the given ones, by
induction on the columns done. -/
theorem Orthogonal.of_fold {matrix : List (List Rat)} {start rows : List (Augmented Rat)} {k : Nat}
    {v : List Rat} (reduced : Reduced matrix 0 start)
    (returned : (List.range k).foldlM eliminateColumn start = some rows)
    (orthogonal : Orthogonal rows v) : Orthogonal start v := by
  induction k generalizing rows with
  | zero =>
    cases returned
    exact orthogonal
  | succ k ih =>
    rw [List.range_succ, List.foldlM_append] at returned
    obtain ⟨before, earlier, last⟩ := Option.bind_eq_some_iff.mp returned
    have last : eliminateColumn before k = some rows := by simpa using last
    exact ih earlier (orthogonal.of_step (reduced.fold earlier) last)

/-- The combination of the columns done that is taken from column `j`. -/
def dependency (n : Nat) (rows : List (Augmented Rat)) (j : Nat) : List Rat :=
  (List.range n).map fun c =>
    if c = j then 1 else if c < j then -((rows[c]?.map fun row => entry row.left j).getD 0) else 0

theorem getD_dependency {n c : Nat} (column : c < n) (rows : List (Augmented Rat)) (j : Nat) :
    (dependency n rows j).getD c 0 = if c = j then 1 else if c < j then
      -((rows[c]?.map fun row => entry row.left j).getD 0) else 0 := by
  simp [dependency, List.getD, column]

/-- When nothing is left of column `j`, the columns done combine to it. -/
theorem Reduced.orthogonal {matrix : List (List Rat)} {rows : List (Augmented Rat)} {j : Nat}
    (reduced : Reduced matrix j rows) (inside : j < matrix.length)
    (zero : ∀ (i : Nat) (row : Augmented Rat), rows[i]? = some row → j ≤ i →
      entry row.left j = 0) : Orthogonal rows (dependency matrix.length rows j) := by
  intro row member
  obtain ⟨i, small, rfl⟩ := List.getElem_of_mem member
  have found := List.getElem?_eq_getElem small
  -- In the columns done the row has nothing but the one of its own place.
  have other : ∀ c < j, c ≠ i → rows[i].left.getD c 0 = 0 := by
    intro c before other
    have unit := reduced.unit i _ found c before
    rwa [if_neg (Ne.symm other)] at unit
  rw [Scalar.dot_eq_sum (reduced.tracks _ member).left.le]
  by_cases done : i < j
  · -- What is left of column `j` in the row is taken away in column `i`.
    have own : i < matrix.length := done.trans inside
    have one : rows[i].left.getD i 0 = 1 := by
      have unit := reduced.unit i _ found i done
      rwa [if_pos rfl] at unit
    rw [Finset.sum_eq_add_of_mem i j (mem_range.mpr own) (mem_range.mpr inside) done.ne]
    · rw [getD_dependency own, getD_dependency inside, if_neg done.ne, if_pos done, if_pos rfl,
        found, one]
      simp [entry]
    · intro c column apart
      rw [getD_dependency (mem_range.mp column), if_neg apart.2]
      split
      next before => rw [other c before apart.1, zero_mul]
      next => rw [mul_zero]
  · refine sum_eq_zero fun c column => ?_
    have below : j ≤ i := not_lt.mp done
    rw [getD_dependency (mem_range.mp column)]
    split
    next same =>
      have nothing : rows[i].left.getD j 0 = 0 := zero i _ found below
      rw [same, nothing, zero_mul]
    next =>
      split
      next before => rw [other c before (by omega), zero_mul]
      next => rw [mul_zero]

/-- Elimination of a nonsingular matrix meets no pivot that is zero. -/
theorem MeetsPivot.ne_zero {matrix : List (List Rat)} {rows : List (Augmented Rat)} {j : Nat}
    {pivot : Rat} (meets : MeetsPivot matrix rows j pivot)
    (square : ∀ row ∈ matrix, row.length = matrix.length)
    (nonsingular : IsUnit (toMatrix matrix.length matrix)) : pivot ≠ 0 := by
  intro vanishes
  obtain ⟨inside, reached, pivoted, found, same⟩ := meets
  have start := Reduced.start square
  have reduced := start.fold reached
  have zero : ∀ (i : Nat) (row : Augmented Rat), rows[i]? = some row → j ≤ i →
      entry row.left j = 0 := by
    intro i row place low
    have bounded := abs_le_pivot low place found
    rw [same, vanishes, abs_zero] at bounded
    exact abs_nonpos_iff.mp bounded
  have orthogonal := (reduced.orthogonal inside zero).of_fold start reached
  -- The dependency is in the kernel of the matrix, and its entry in column `j` is one.
  have kernel : toMatrix matrix.length matrix *ᵥ
      toVector matrix.length (dependency matrix.length rows j) = 0 := by
    rw [← toVector_mulVec _ square]
    funext i
    have small := i.isLt
    have row := orthogonal ⟨matrix[i], (identity matrix.length).get ⟨i, by simp [identity]⟩⟩
      (List.mem_iff_getElem.mpr ⟨i, by simp [identity], by simp⟩)
    rw [toVector, getD_mulVec, List.getD_eq_getElem _ _ small]
    exact row
  have trivial := (Matrix.mulVec_injective_iff_isUnit.mpr nonsingular)
    (kernel.trans (Matrix.mulVec_zero _).symm)
  have one := congrFun trivial ⟨j, inside⟩
  rw [toVector, getD_dependency inside, if_pos rfl] at one
  exact one_ne_zero one

/-- A nonsingular matrix without an inverse has met a pivot that is not zero, but counts as zero. -/
theorem invert_none_nonsingular {matrix : List (List Rat)}
    (square : ∀ row ∈ matrix, row.length = matrix.length)
    (nonsingular : IsUnit (toMatrix matrix.length matrix)) (failed : invert matrix = none) :
    ∃ rows j pivot, MeetsPivot matrix rows j pivot ∧ 0 < |pivot| ∧ |pivot| < singularThreshold := by
  obtain ⟨rows, j, pivot, meets, small⟩ := invert_none square failed
  exact ⟨rows, j, pivot, meets, abs_pos.mpr (meets.ne_zero square nonsingular),
    (Scalar.abs_eq pivot).symm.trans_lt small⟩

/-! ### The result of elimination -/

/-- What elimination returns for a square matrix is as large as the matrix, and it is the inverse on
both sides. A singular matrix has none. A nonsingular matrix is refused only for a pivot that is not
zero, but counts as zero. -/
theorem invert_two_sided {n : Nat} {matrix : List (List Rat)} (size : matrix.length = n)
    (square : ∀ row ∈ matrix, row.length = n) :
    (∀ inverse, invert matrix = some inverse →
      inverse.length = n ∧ (∀ row ∈ inverse, row.length = n) ∧
        toMatrix n matrix * toMatrix n inverse = 1 ∧
        toMatrix n inverse * toMatrix n matrix = 1) ∧
    ((toMatrix n matrix).det = 0 → invert matrix = none) ∧
    (invert matrix = none → (toMatrix n matrix).det = 0 ∨
      ∃ rows j pivot, MeetsPivot matrix rows j pivot ∧ 0 < |pivot| ∧
        |pivot| < singularThreshold) := by
  refine ⟨fun inverse returned => ?_, fun singular => ?_, fun failed => ?_⟩
  · have product := mul_invert size square returned
    subst size
    obtain ⟨high, wide⟩ := invert_shape square returned
    exact ⟨high, wide, product, mul_eq_one_comm.mp product⟩
  · -- An inverse would make the determinant a unit.
    by_contra found
    obtain ⟨inverse, returned⟩ := Option.ne_none_iff_exists'.mp found
    have product := congrArg det (mul_invert size square returned)
    rw [det_mul, singular, zero_mul, det_one] at product
    exact zero_ne_one product
  · by_cases singular : (toMatrix n matrix).det = 0
    · exact .inl singular
    · subst size
      have nonsingular := (isUnit_iff_isUnit_det _).mpr (isUnit_iff_ne_zero.mpr singular)
      exact .inr (invert_none_nonsingular square nonsingular failed)

/-- The largest entry of the first column is in the last row, and the rows change places. -/
def swapped : List (List Rat) := [[0, 2, 1], [1, 1, 0], [2, 0, 3]]

/-- The second row is twice the first. -/
def doubled : List (List Rat) := [[1, 2], [2, 4]]

theorem invert_two_sided_swapped :
    invert swapped = some [[-3/8, 3/4, 1/8], [3/8, 1/4, -1/8], [1/4, -1/2, 1/4]] ∧
      toMatrix 3 swapped * toMatrix 3 [[-3/8, 3/4, 1/8], [3/8, 1/4, -1/8], [1/4, -1/2, 1/4]] = 1 ∧
      invert doubled = none := by
  have returned : invert swapped = some [[-3/8, 3/4, 1/8], [3/8, 1/4, -1/8], [1/4, -1/2, 1/4]] := by
    with_unfolding_all rfl
  obtain ⟨inverts, _⟩ := @invert_two_sided 3 swapped rfl (by decide)
  obtain ⟨_, refuses, _⟩ := @invert_two_sided 2 doubled rfl (by decide)
  refine ⟨returned, (inverts _ returned).2.2.1, refuses ?_⟩
  rw [det_fin_two]
  with_unfolding_all rfl

end LinOpt.Dense
