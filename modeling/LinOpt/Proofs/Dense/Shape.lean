import LinOpt.Dense

/-!
# The shape of an inverse

How many rows elimination works on and how long they are does not depend on what the numbers are,
and neither does the place where it looks for a pivot. So the inverse of a square matrix is as large
as the matrix, and a square matrix without an inverse has met a pivot below the threshold.
-/

namespace LinOpt.Dense

variable {α : Type} [Scalar α]

/-- `n` rows whose two parts have `n` entries each. -/
structure Squared (n : Nat) (rows : List (Augmented α)) : Prop where
  length : rows.length = n
  left : ∀ row ∈ rows, row.left.length = n
  right : ∀ row ∈ rows, row.right.length = n

theorem le_pivotRow (rows : List (Augmented α)) (j : Nat) : j ≤ pivotRow rows j := by
  unfold pivotRow
  refine List.foldlRecOn _ _ (motive := fun best => j ≤ best) (Nat.le_refl j) ?_
  intro best below i member
  split
  · obtain ⟨k, small, rfl⟩ := List.getElem_of_mem member
    simp only [List.getElem_drop, List.getElem_range]
    omega
  · exact below

theorem pivotRow_lt {rows : List (Augmented α)} {j : Nat} (inside : j < rows.length) :
    pivotRow rows j < rows.length := by
  unfold pivotRow
  refine List.foldlRecOn _ _ (motive := fun best => best < rows.length) inside ?_
  intro best below i member
  split
  · exact List.mem_range.mp (List.mem_of_mem_drop member)
  · exact below

namespace Squared

variable {n j : Nat} {rows next : List (Augmented α)}

theorem start {matrix : List (List α)} (square : ∀ row ∈ matrix, row.length = matrix.length) :
    Squared matrix.length (List.zipWith Augmented.mk matrix (identity matrix.length)) where
  length := by simp [identity]
  left row member := by
    obtain ⟨i, small, rfl⟩ := List.getElem_of_mem member
    rw [List.getElem_zipWith]
    exact square _ (List.getElem_mem _)
  right row member := by
    obtain ⟨i, small, rfl⟩ := List.getElem_of_mem member
    rw [List.getElem_zipWith]
    simp [identity]

omit [Scalar α] in
theorem set (squared : Squared n rows) {row : Augmented α} (left : row.left.length = n)
    (right : row.right.length = n) (i : Nat) : Squared n (rows.set i row) where
  length := by rw [List.length_set, squared.length]
  left other member := by
    rcases List.mem_or_eq_of_mem_set member with member | rfl
    · exact squared.left other member
    · exact left
  right other member := by
    rcases List.mem_or_eq_of_mem_set member with member | rfl
    · exact squared.right other member
    · exact right

/-- A step of elimination exchanges, divides and subtracts rows, and keeps their lengths. -/
theorem step (squared : Squared n rows) (returned : eliminateColumn rows j = some next) :
    Squared n next := by
  unfold eliminateColumn at returned
  dsimp only at returned
  split at returned
  next pivoted displaced above below =>
    split at returned
    · cases returned
    · cases returned
      have high := List.mem_of_getElem? above
      have low := List.mem_of_getElem? below
      have scaledLeft : (pivoted.div (entry pivoted.left j)).left.length = n := by
        simp [Augmented.div, squared.left _ high]
      have scaledRight : (pivoted.div (entry pivoted.left j)).right.length = n := by
        simp [Augmented.div, squared.right _ high]
      -- Both halves of the matrix survive the exchange, and each subtraction pairs equal lengths.
      have exchanged := (squared.set (squared.left _ low) (squared.right _ low)
        (pivotRow rows j)).set scaledLeft scaledRight j
      refine ⟨by rw [List.length_mapIdx, exchanged.length], ?_, ?_⟩
      · intro row member
        obtain ⟨k, small, rfl⟩ := List.mem_mapIdx.mp member
        have before := exchanged.left _ (List.getElem_mem small)
        split
        · exact before
        · simp only [Augmented.subMul, List.length_zipWith, before, scaledLeft, Nat.min_self]
      · intro row member
        obtain ⟨k, small, rfl⟩ := List.mem_mapIdx.mp member
        have before := exchanged.right _ (List.getElem_mem small)
        split
        · exact before
        · simp only [Augmented.subMul, List.length_zipWith, before, scaledRight, Nat.min_self]
  · cases returned

theorem fold {start : List (Augmented α)} {k : Nat} (squared : Squared n start)
    (returned : (List.range k).foldlM eliminateColumn start = some rows) : Squared n rows := by
  induction k generalizing rows with
  | zero =>
    cases returned
    exact squared
  | succ k ih =>
    rw [List.range_succ, List.foldlM_append] at returned
    obtain ⟨before, earlier, last⟩ := Option.bind_eq_some_iff.mp returned
    have last : eliminateColumn before k = some rows := by simpa using last
    exact (ih earlier).step last

/-- Within the matrix a step only fails for its pivot. -/
theorem step_none (squared : Squared n rows) (inside : j < n)
    (failed : eliminateColumn rows j = none) :
    ∃ pivoted, rows[pivotRow rows j]? = some pivoted ∧
      Scalar.abs (entry pivoted.left j) < singularThreshold := by
  have inside : j < rows.length := by rwa [squared.length]
  -- The rows that the step looks up are there, so only the test of the pivot can fail.
  have above := List.getElem?_eq_getElem (pivotRow_lt inside)
  have below := List.getElem?_eq_getElem inside
  refine ⟨_, above, ?_⟩
  unfold eliminateColumn at failed
  simp only [above, below] at failed
  split at failed
  next small => exact small
  · cases failed

end Squared

/-- The inverse is as large as the matrix. -/
theorem invert_shape {matrix inverse : List (List α)}
    (square : ∀ row ∈ matrix, row.length = matrix.length)
    (returned : invert matrix = some inverse) :
    inverse.length = matrix.length ∧ ∀ row ∈ inverse, row.length = matrix.length := by
  obtain ⟨rows, eliminated, rfl⟩ := Option.map_eq_some_iff.mp returned
  have squared := (Squared.start square).fold eliminated
  refine ⟨by rw [List.length_map, squared.length], ?_⟩
  intro row member
  obtain ⟨augmented, present, rfl⟩ := List.mem_map.mp member
  exact squared.right augmented present

/-- Elimination comes to a column where the largest entry that is left, the pivot, is below the
threshold. -/
structure MeetsPivot (matrix : List (List α)) (rows : List (Augmented α)) (j : Nat) (pivot : α) :
    Prop where
  column : j < matrix.length
  reached : (List.range j).foldlM eliminateColumn
    (List.zipWith Augmented.mk matrix (identity matrix.length)) = some rows
  pivot : ∃ row, rows[pivotRow rows j]? = some row ∧ entry row.left j = pivot

theorem foldlM_range_none {σ : Type} {f : σ → Nat → Option σ} {start : σ} {n : Nat}
    (failed : (List.range n).foldlM f start = none) :
    ∃ j < n, ∃ state, (List.range j).foldlM f start = some state ∧ f state j = none := by
  induction n with
  | zero => cases failed
  | succ n ih =>
    -- Either one of the steps before has failed, or all of them return and the last one fails.
    cases before : (List.range n).foldlM f start with
    | none =>
      obtain ⟨j, small, rest⟩ := ih before
      exact ⟨j, by omega, rest⟩
    | some state =>
      rw [List.range_succ, List.foldlM_append, before] at failed
      exact ⟨n, by omega, state, before, by simpa using failed⟩

/-- The only way not to find an inverse of a square matrix is a pivot below the threshold. -/
theorem invert_none {matrix : List (List α)}
    (square : ∀ row ∈ matrix, row.length = matrix.length) (failed : invert matrix = none) :
    ∃ rows j pivot, MeetsPivot matrix rows j pivot ∧ Scalar.abs pivot < singularThreshold := by
  obtain ⟨j, inside, rows, reached, stopped⟩ :=
    foldlM_range_none (Option.map_eq_none_iff.mp failed)
  have squared := (Squared.start square).fold reached
  obtain ⟨row, found, small⟩ := squared.step_none inside stopped
  exact ⟨rows, j, _, ⟨inside, reached, row, found, rfl⟩, small⟩

end LinOpt.Dense
