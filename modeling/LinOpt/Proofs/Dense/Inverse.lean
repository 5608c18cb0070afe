import Mathlib.LinearAlgebra.Matrix.NonsingularInverse
import LinOpt.Proofs.Dense.Products
import LinOpt.Proofs.Dense.Shape

/-!
# Inverses by elimination

Whatever elimination does to a row of the matrix it also does to the row of the identity matrix
beside it, so the row beside always says which combination of the given rows has been reached. When
all columns are those of the identity matrix, these combinations form the inverse.
-/

namespace LinOpt.Dense

open Finset Matrix

/-- The right part of a row holds the combination of the given rows that its left part is. -/
structure Augmented.Tracks (matrix : List (List Rat)) (row : Augmented Rat) : Prop where
  left : row.left.length = matrix.length
  right : row.right.length = matrix.length
  product : ∀ j, entry row.left j = Scalar.dot row.right (column matrix j)

theorem entry_map_div (row : List Rat) (divisor : Rat) (j : Nat) :
    entry (row.map (· / divisor)) j = entry row j / divisor := by
  by_cases h : j < row.length <;> simp [entry, List.getD, h]

theorem dot_map_div (row v : List Rat) (divisor : Rat) :
    Scalar.dot (row.map (· / divisor)) v = Scalar.dot row v / divisor := by
  induction row generalizing v with
  | nil => simp
  | cons a row ih =>
    cases v with
    | nil => simp
    | cons b v =>
      rw [List.map_cons, Scalar.dot_cons, Scalar.dot_cons, ih]
      ring

theorem entry_subMul {row other : List Rat} (parallel : row.length = other.length)
    (factor : Rat) (j : Nat) :
    entry (List.zipWith (fun a b => a - factor * b) row other) j =
      entry row j - factor * entry other j := by
  by_cases h : j < row.length
  · have h' : j < other.length := parallel ▸ h
    simp [entry, List.getD, h, h']
  · have h' : ¬ j < other.length := parallel ▸ h
    simp [entry, List.getD, h, h']

theorem dot_subMul {row other : List Rat} (parallel : row.length = other.length)
    (factor : Rat) (v : List Rat) :
    Scalar.dot (List.zipWith (fun a b => a - factor * b) row other) v =
      Scalar.dot row v - factor * Scalar.dot other v := by
  induction row generalizing other v with
  | nil => simp [List.eq_nil_of_length_eq_zero parallel.symm]
  | cons a row ih =>
    cases other with
    | nil => simp at parallel
    | cons b other =>
      cases v with
      | nil => simp
      | cons c v =>
        have shorter : row.length = other.length := by simpa using parallel
        have tail := ih shorter v
        rw [List.zipWith_cons_cons, Scalar.dot_cons, Scalar.dot_cons, Scalar.dot_cons, tail]
        ring

namespace Augmented.Tracks

variable {matrix : List (List Rat)} {row other : Augmented Rat}

theorem div (tracks : row.Tracks matrix) (divisor : Rat) : (row.div divisor).Tracks matrix where
  left := by simpa [Augmented.div] using tracks.left
  right := by simpa [Augmented.div] using tracks.right
  product j := by
    simp only [Augmented.div]
    rw [entry_map_div, dot_map_div, tracks.product]

theorem subMul (tracks : row.Tracks matrix) (others : other.Tracks matrix) (factor : Rat) :
    (row.subMul factor other).Tracks matrix where
  left := by simp [Augmented.subMul, tracks.left, others.left]
  right := by simp [Augmented.subMul, tracks.right, others.right]
  product j := by
    simp only [Augmented.subMul]
    rw [entry_subMul (tracks.left.trans others.left.symm),
      dot_subMul (tracks.right.trans others.right.symm), tracks.product, others.product]

end Augmented.Tracks

/-- The state of elimination after `k` columns: every row tracks the matrix, and the columns done
are those of the identity matrix. -/
structure Reduced (matrix : List (List Rat)) (k : Nat) (rows : List (Augmented Rat)) : Prop where
  length : rows.length = matrix.length
  tracks : ∀ row ∈ rows, row.Tracks matrix
  unit : ∀ (i : Nat) (row : Augmented Rat), rows[i]? = some row →
    ∀ j < k, entry row.left j = if i = j then 1 else 0

theorem singularThreshold_pos : (0 : Rat) < singularThreshold := by
  show (0 : Rat) < ((1 : Nat) : Rat) * 10 ^ (-12 : Int)
  positivity

/-- What a step of elimination does: a row at or below the diagonal with a pivot comes up, is
divided by its pivot and is subtracted from the other rows. -/
theorem eliminateColumn_some {rows next : List (Augmented Rat)} {j : Nat}
    (returned : eliminateColumn rows j = some next) :
    ∃ (i : Nat) (pivoted displaced : Augmented Rat), j ≤ i ∧ rows[i]? = some pivoted ∧
      rows[j]? = some displaced ∧ entry pivoted.left j ≠ 0 ∧
      next = ((rows.set i displaced).set j (pivoted.div (entry pivoted.left j))).mapIdx
        fun k row => if k = j || entry row.left j == 0 then row
          else row.subMul (entry row.left j) (pivoted.div (entry pivoted.left j)) := by
  unfold eliminateColumn at returned
  simp only at returned
  split at returned
  next pivoted displaced above below =>
    split at returned
    · cases returned
    next large =>
      refine ⟨pivotRow rows j, pivoted, displaced, le_pivotRow rows j, above, below, ?_, ?_⟩
      · intro zero
        rw [zero] at large
        exact large singularThreshold_pos
      · exact (Option.some.inj returned).symm
  · cases returned

/-- A row may come up to the diagonal, scaled, as long as it is zero in the columns done. -/
theorem Reduced.swap {matrix : List (List Rat)} {rows : List (Augmented Rat)} {i j : Nat}
    {displaced scaled : Augmented Rat} (reduced : Reduced matrix j rows) (low : j ≤ i)
    (below : rows[j]? = some displaced) (tracks : scaled.Tracks matrix)
    (zero : ∀ c < j, entry scaled.left c = 0) :
    Reduced matrix j ((rows.set i displaced).set j scaled) where
  length := by simpa using reduced.length
  tracks row member := by
    rcases List.mem_or_eq_of_mem_set member with member | rfl
    · rcases List.mem_or_eq_of_mem_set member with member | rfl
      · exact reduced.tracks row member
      · exact reduced.tracks _ (List.mem_of_getElem? below)
    · exact tracks
  unit k row found c before := by
    obtain ⟨position, _⟩ := List.getElem?_eq_some_iff.mp below
    by_cases diagonal : k = j
    · subst diagonal
      rw [List.getElem?_set_self (by simpa using position), Option.some.injEq] at found
      subst row
      rw [zero c before, if_neg (by omega)]
    · rw [List.getElem?_set_ne (Ne.symm diagonal)] at found
      by_cases moved : k = i
      · subst moved
        -- The displaced row lands below the diagonal, where no column done has its one.
        obtain ⟨inside, _⟩ := List.getElem?_eq_some_iff.mp found
        rw [List.getElem?_set_self (by simpa using inside), Option.some.injEq] at found
        subst row
        rw [reduced.unit j displaced below c before, if_neg (by omega), if_neg (by omega)]
      · rw [List.getElem?_set_ne (Ne.symm moved)] at found
        exact reduced.unit k row found c before

/-- With a one on the diagonal, subtracting its row from the others does one more column. -/
theorem Reduced.clear {matrix : List (List Rat)} {rows : List (Augmented Rat)} {j : Nat}
    {scaled : Augmented Rat} (reduced : Reduced matrix j rows) (pivot : rows[j]? = some scaled)
    (one : entry scaled.left j = 1) :
    Reduced matrix (j + 1) (rows.mapIdx fun k row => if k = j || entry row.left j == 0 then row
      else row.subMul (entry row.left j) scaled) where
  length := by simpa using reduced.length
  tracks row member := by
    obtain ⟨k, small, rfl⟩ := List.mem_mapIdx.mp member
    have tracks := reduced.tracks _ (List.getElem_mem small)
    split
    · exact tracks
    · exact tracks.subMul (reduced.tracks scaled (List.mem_of_getElem? pivot)) _
  unit k row found c done := by
    rw [List.getElem?_mapIdx] at found
    obtain ⟨old, place, rfl⟩ := Option.map_eq_some_iff.mp found
    have parallel : old.left.length = scaled.left.length :=
      (reduced.tracks old (List.mem_of_getElem? place)).left.trans
        (reduced.tracks scaled (List.mem_of_getElem? pivot)).left.symm
    by_cases diagonal : k = j
    · subst diagonal
      obtain rfl := Option.some.inj (place.symm.trans pivot)
      rw [if_pos (by simp)]
      rcases Nat.lt_succ_iff_lt_or_eq.mp done with before | rfl
      · exact reduced.unit k old place c before
      · rw [one, if_pos rfl]
    · rcases Nat.lt_succ_iff_lt_or_eq.mp done with before | rfl
      · -- The diagonal row is zero in the columns done, so they stay as they are.
        have zero : entry scaled.left c = 0 := by
          rw [reduced.unit j scaled pivot c before, if_neg (by omega)]
        split
        · exact reduced.unit k old place c before
        · rw [Augmented.subMul, entry_subMul parallel, zero, mul_zero, sub_zero]
          exact reduced.unit k old place c before
      · rw [if_neg diagonal]
        split
        next zero => simpa [diagonal] using zero
        · rw [Augmented.subMul, entry_subMul parallel, one, mul_one, sub_self]

/-- One step of elimination does one more column. -/
theorem Reduced.step {matrix : List (List Rat)} {rows next : List (Augmented Rat)} {j : Nat}
    (reduced : Reduced matrix j rows) (returned : eliminateColumn rows j = some next) :
    Reduced matrix (j + 1) next := by
  obtain ⟨i, pivoted, displaced, low, above, below, nonzero, rfl⟩ :=
    eliminateColumn_some returned
  obtain ⟨position, _⟩ := List.getElem?_eq_some_iff.mp below
  have tracks := (reduced.tracks pivoted (List.mem_of_getElem? above)).div (entry pivoted.left j)
  have zero : ∀ c < j, entry (pivoted.div (entry pivoted.left j)).left c = 0 := by
    intro c before
    rw [Augmented.div, entry_map_div, reduced.unit i pivoted above c before, if_neg (by omega),
      zero_div]
  have one : entry (pivoted.div (entry pivoted.left j)).left j = 1 := by
    rw [Augmented.div, entry_map_div, div_self nonzero]
  refine (reduced.swap low below tracks zero).clear ?_ one
  exact List.getElem?_set_self (by simpa using position)

theorem dot_unit (v : List Rat) {n i : Nat} (inside : i < n) :
    Scalar.dot ((List.range n).map fun j => if i = j then (1 : Rat) else 0) v = v.getD i 0 := by
  rw [Scalar.dot_eq_sum (n := n) (by simp), Finset.sum_eq_single i]
  · simp [List.getD, inside]
  · intro j member other
    have small : j < n := Finset.mem_range.mp member
    simp [List.getD, small, Ne.symm other]
  · intro outside
    exact absurd (Finset.mem_range.mpr inside) outside

theorem Reduced.start {matrix : List (List Rat)}
    (square : ∀ row ∈ matrix, row.length = matrix.length) :
    Reduced matrix 0 (List.zipWith Augmented.mk matrix (identity matrix.length)) where
  length := by simp [identity]
  tracks row member := by
    obtain ⟨i, small, rfl⟩ := List.getElem_of_mem member
    have inside : i < matrix.length := by simp [identity] at small; exact small
    rw [List.getElem_zipWith]
    refine ⟨square _ (List.getElem_mem inside), by simp [identity], ?_⟩
    intro j
    simp only [identity, List.getElem_map, List.getElem_range]
    rw [dot_unit _ inside, getD_column]
    simp [List.getD, inside]
  unit _ _ _ j none := absurd none (Nat.not_lt_zero j)

/-- Elimination of the first `k` columns, by induction on `k`. -/
theorem Reduced.fold {matrix : List (List Rat)} {start rows : List (Augmented Rat)} {k : Nat}
    (reduced : Reduced matrix 0 start)
    (returned : (List.range k).foldlM eliminateColumn start = some rows) :
    Reduced matrix k rows := by
  induction k generalizing rows with
  | zero =>
    cases returned
    exact reduced
  | succ k ih =>
    rw [List.range_succ, List.foldlM_append] at returned
    obtain ⟨before, earlier, last⟩ := Option.bind_eq_some_iff.mp returned
    have last : eliminateColumn before k = some rows := by simpa using last
    exact (ih earlier).step last

theorem invert_reduced {matrix inverse : List (List Rat)}
    (square : ∀ row ∈ matrix, row.length = matrix.length)
    (returned : invert matrix = some inverse) :
    ∃ rows, Reduced matrix matrix.length rows ∧ inverse = rows.map Augmented.right := by
  obtain ⟨rows, eliminated, rfl⟩ := Option.map_eq_some_iff.mp returned
  exact ⟨rows, (Reduced.start square).fold eliminated, rfl⟩

theorem invert_mul {matrix inverse : List (List Rat)} {n : Nat} (size : matrix.length = n)
    (square : ∀ row ∈ matrix, row.length = n) (returned : invert matrix = some inverse) :
    toMatrix n inverse * toMatrix n matrix = 1 := by
  subst size
  obtain ⟨rows, reduced, rfl⟩ := invert_reduced square returned
  ext i j
  have inside : (i : Nat) < rows.length := reduced.length.symm ▸ i.isLt
  have tracks := reduced.tracks _ (List.getElem_mem inside)
  have product := tracks.product j
  rw [reduced.unit i _ (List.getElem?_eq_getElem inside) j j.isLt,
    dot_eq_dotProduct (n := matrix.length) tracks.right.le] at product
  rw [Matrix.mul_apply, Matrix.one_apply]
  simp only [Fin.ext_iff]
  refine Eq.trans (Finset.sum_congr rfl fun k _ => ?_) product.symm
  simp only [toMatrix, Matrix.of_apply, toVector, getD_column]
  simp [List.getD, inside, entry]

theorem mul_invert {matrix inverse : List (List Rat)} {n : Nat} (size : matrix.length = n)
    (square : ∀ row ∈ matrix, row.length = n) (returned : invert matrix = some inverse) :
    toMatrix n matrix * toMatrix n inverse = 1 :=
  mul_eq_one_comm.mp (invert_mul size square returned)

end LinOpt.Dense
