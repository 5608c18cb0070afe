import LinOpt.Scalar

/-!
# Dense matrices

A matrix is the list of its rows. An entry that a short row does not have counts as zero.
-/

namespace LinOpt.Dense

variable {α : Type} [Scalar α]

/-- The entry of a row in column `j`. -/
def entry (row : List α) (j : Nat) : α := row.getD j 0

def column (rows : List (List α)) (j : Nat) : List α := rows.map (entry · j)

/-- `matrix * vector` -/
def mulVec (matrix : List (List α)) (vector : List α) : List α :=
  matrix.map (Scalar.dot · vector)

/-- `sums + factor * row`; entries beyond the end of the row stay as they are. -/
def addMul (factor : α) : (sums row : List α) → List α
  | x :: sums, a :: row => (x + factor * a) :: addMul factor sums row
  | sums, _ => sums

/-- `vectorᵀ * matrix`, accumulated row by row from zero. Rows with the factor zero are left out,
so that what they hold cannot disturb the sum. -/
def vecMul (vector : List α) (matrix : List (List α)) : List α :=
  (vector.zip matrix).foldl
    (fun sums (factor, row) => if factor == 0 then sums else addMul factor sums row)
    (List.replicate (matrix.headD []).length 0)

def identity (n : Nat) : List (List α) :=
  (List.range n).map fun i => (List.range n).map fun j => if i = j then 1 else 0

/-- A pivot below this magnitude counts as zero. -/
def singularThreshold : α := Scalar.ofDecimal 1 (-12)

/-- A row of the matrix under elimination beside the row of the inverse that grows with it. -/
structure Augmented (α : Type) where
  left : List α
  right : List α
  deriving Repr

namespace Augmented

def div (row : Augmented α) (divisor : α) : Augmented α :=
  ⟨row.left.map (· / divisor), row.right.map (· / divisor)⟩

/-- `row - factor * other` -/
def subMul (row : Augmented α) (factor : α) (other : Augmented α) : Augmented α :=
  ⟨List.zipWith (fun a b => a - factor * b) row.left other.left,
    List.zipWith (fun a b => a - factor * b) row.right other.right⟩

end Augmented

/-- The row at or below the diagonal whose entry in column `j` has the largest magnitude; of
several, the lowest in the matrix. -/
def pivotRow (rows : List (Augmented α)) (j : Nat) : Nat :=
  let magnitude (i : Nat) : α := ((rows[i]?).map fun row => entry row.left j).getD 0
  ((List.range rows.length).drop (j + 1)).foldl
    (fun best i => if Scalar.magnitudeLe (magnitude best) (magnitude i) then i else best) j

/-- Makes column `j` the unit column with its one in row `j`, unless every pivot is zero. -/
def eliminateColumn (rows : List (Augmented α)) (j : Nat) : Option (List (Augmented α)) :=
  let i := pivotRow rows j
  match rows[i]?, rows[j]? with
  | some pivoted, some displaced =>
    let pivot := entry pivoted.left j
    if Scalar.abs pivot < singularThreshold then none
    else
      let scaled := pivoted.div pivot
      some (((rows.set i displaced).set j scaled).mapIdx fun k row =>
        let factor := entry row.left j
        if k = j || factor == 0 then row else row.subMul factor scaled)
  | _, _ => none

/-- The inverse of a square matrix by Gauss–Jordan elimination with partial pivoting, or nothing
when a column has no pivot. -/
def invert (matrix : List (List α)) : Option (List (List α)) :=
  let start := List.zipWith Augmented.mk matrix (identity matrix.length)
  ((List.range matrix.length).foldlM eliminateColumn start).map (·.map Augmented.right)

end LinOpt.Dense
