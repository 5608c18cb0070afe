import Mathlib.Algebra.BigOperators.Fin
import Mathlib.Data.List.GetD
import Mathlib.Data.Matrix.Mul
import Mathlib.Algebra.Order.Group.Abs
import Mathlib.Tactic.Ring
import LinOpt.Dense
import LinOpt.Scalar.Rational

/-!
# Products over the rational numbers

Exact arithmetic turns the folds of the dense products into sums. A list of rows is read as a
square matrix, and both products of a matrix and a vector are then the ones of linear algebra.
-/

namespace LinOpt

open Finset Matrix

theorem Scalar.sum_eq (terms : List Rat) : Scalar.sum terms = terms.sum := by
  have grown (start : Rat) : terms.foldl (· + ·) start = start + terms.sum := by
    induction terms generalizing start with
    | nil => simp
    | cons x terms ih => rw [List.foldl_cons, ih, List.sum_cons, add_assoc]
  exact (grown 0).trans (zero_add _)

namespace Scalar

theorem abs_eq (x : Rat) : abs x = |x| := by
  show (if x < 0 then -x else x) = |x|
  split
  next negative => exact (abs_of_neg negative).symm
  next nonneg => exact (abs_of_nonneg (not_lt.mp nonneg)).symm

@[simp] theorem dot_nil_left (right : List Rat) : dot [] right = 0 := rfl

@[simp] theorem dot_nil_right (left : List Rat) : dot left [] = 0 := by
  cases left <;> rfl

@[simp] theorem dot_cons (x y : Rat) (left right : List Rat) :
    dot (x :: left) (y :: right) = x * y + dot left right := by
  simp only [dot, sum_eq, List.zipWith_cons_cons, List.sum_cons]

theorem dot_comm (left right : List Rat) : dot left right = dot right left := by
  induction left generalizing right with
  | nil => simp
  | cons x left ih =>
    cases right with
    | nil => simp
    | cons y right => rw [dot_cons, dot_cons, ih, mul_comm]

/-- Places beyond the end of a list contribute nothing. -/
theorem dot_eq_sum {left right : List Rat} {n : Nat} (covered : left.length ≤ n) :
    dot left right = ∑ j ∈ range n, left.getD j 0 * right.getD j 0 := by
  induction left generalizing right n with
  | nil => simp
  | cons x left ih =>
    obtain ⟨n, rfl⟩ : ∃ k, n = k + 1 := ⟨n - 1, by simp at covered; omega⟩
    have shorter : left.length ≤ n := by simpa using covered
    rw [sum_range_succ']
    cases right with
    | nil => simp
    | cons y right => simp [ih shorter, add_comm]

theorem dot_append {left left' right right' : List Rat} (parallel : left.length = right.length) :
    dot (left ++ left') (right ++ right') = dot left right + dot left' right' := by
  induction left generalizing right with
  | nil => simp [List.eq_nil_of_length_eq_zero parallel.symm]
  | cons x left ih =>
    cases right with
    | nil => simp at parallel
    | cons y right => simp [ih (by simpa using parallel), add_assoc]

theorem dot_neg_left (left right : List Rat) : dot (left.map (- ·)) right = -dot left right := by
  induction left generalizing right with
  | nil => simp
  | cons x left ih =>
    cases right with
    | nil => simp
    | cons y right =>
      rw [List.map_cons, dot_cons, dot_cons, ih]
      ring

theorem dot_map_map {γ : Type} (f g : γ → Rat) (xs : List γ) :
    dot (xs.map f) (xs.map g) = (xs.map fun x => f x * g x).sum := by
  induction xs with
  | nil => simp
  | cons x xs ih => rw [List.map_cons, List.map_cons, dot_cons, ih, List.map_cons, List.sum_cons]

theorem dot_eq_zero {left : List Rat} (zero : ∀ x ∈ left, x = 0) (right : List Rat) :
    dot left right = 0 := by
  rw [dot, sum_eq]
  refine List.sum_eq_zero fun product member => ?_
  obtain ⟨i, small, rfl⟩ := List.getElem_of_mem member
  rw [List.getElem_zipWith, zero _ (List.getElem_mem _), zero_mul]

theorem dot_append_zero {left tail : List Rat} (zero : ∀ x ∈ tail, x = 0) (right : List Rat) :
    dot (left ++ tail) right = dot left right := by
  induction left generalizing right with
  | nil => rw [List.nil_append, dot_eq_zero zero, dot_nil_left]
  | cons x left ih =>
    cases right with
    | nil => simp
    | cons y right => rw [List.cons_append, dot_cons, dot_cons, ih]

theorem dot_nonneg {left right : List Rat} (hleft : ∀ x ∈ left, 0 ≤ x)
    (hright : ∀ y ∈ right, 0 ≤ y) : 0 ≤ dot left right := by
  rw [dot, sum_eq]
  refine List.sum_nonneg fun product member => ?_
  obtain ⟨i, small, rfl⟩ := List.getElem_of_mem member
  rw [List.getElem_zipWith]
  exact mul_nonneg (hleft _ (List.getElem_mem _)) (hright _ (List.getElem_mem _))

theorem dot_nonpos {left right : List Rat} (hleft : ∀ x ∈ left, x ≤ 0)
    (hright : ∀ y ∈ right, 0 ≤ y) : dot left right ≤ 0 := by
  rw [← neg_nonneg, ← dot_neg_left]
  refine dot_nonneg (fun x member => ?_) hright
  obtain ⟨z, inside, rfl⟩ := List.mem_map.mp member
  exact neg_nonneg.mpr (hleft z inside)

end Scalar

namespace Dense

/-- The first `n` entries of a list. -/
def toVector (n : Nat) (entries : List Rat) : Fin n → Rat := fun i => entries.getD i 0

/-- The upper left corner of a matrix. -/
def toMatrix (n : Nat) (rows : List (List Rat)) : Matrix (Fin n) (Fin n) Rat :=
  Matrix.of fun i j => entry (rows.getD i []) j

theorem dot_eq_dotProduct {left right : List Rat} {n : Nat} (covered : left.length ≤ n) :
    Scalar.dot left right = toVector n left ⬝ᵥ toVector n right := by
  rw [Scalar.dot_eq_sum covered]
  exact (Fin.sum_univ_eq_sum_range (fun j => left.getD j 0 * right.getD j 0) n).symm

theorem getD_column (rows : List (List Rat)) (j i : Nat) :
    (column rows j).getD i 0 = entry (rows.getD i []) j := by
  by_cases h : i < rows.length <;> simp [column, entry, List.getD, h]

theorem getD_mulVec (rows : List (List Rat)) (v : List Rat) (i : Nat) :
    (mulVec rows v).getD i 0 = Scalar.dot (rows.getD i []) v := by
  by_cases h : i < rows.length <;> simp [mulVec, List.getD, h]

theorem toVector_mulVec {rows : List (List Rat)} {n : Nat} (v : List Rat)
    (wide : ∀ row ∈ rows, row.length = n) :
    toVector n (mulVec rows v) = toMatrix n rows *ᵥ toVector n v := by
  funext i
  have covered : (rows.getD i []).length ≤ n := by
    by_cases small : (i : Nat) < rows.length
    · rw [List.getD_eq_getElem _ _ small, wide _ (List.getElem_mem small)]
    · rw [List.getD_eq_default _ _ (not_lt.mp small)]
      exact Nat.zero_le n
  rw [toVector, getD_mulVec, dot_eq_dotProduct covered]
  rfl

theorem length_addMul (factor : Rat) (sums row : List Rat) :
    (addMul factor sums row).length = sums.length := by
  fun_induction addMul factor sums row with
  | case1 x sums a row ih => simp [ih]
  | case2 => rfl

theorem getD_addMul (factor : Rat) {sums row : List Rat} (fits : row.length ≤ sums.length)
    (j : Nat) : (addMul factor sums row).getD j 0 = sums.getD j 0 + factor * entry row j := by
  induction sums generalizing row j with
  | nil => simp [addMul, entry, List.eq_nil_of_length_eq_zero (Nat.le_zero.mp fits)]
  | cons x sums ih =>
    cases row with
    | nil => simp [addMul, entry]
    | cons a row =>
      cases j with
      | zero => rfl
      | succ j => simpa [addMul, entry] using ih (by simpa using fits) j

/-- The accumulation of rows, entry by entry: leaving out a zero factor changes nothing. -/
theorem getD_accumulate {n : Nat} (v : List Rat) (rows : List (List Rat)) (sums : List Rat)
    (wide : sums.length = n) (fits : ∀ row ∈ rows, row.length = n) (j : Nat) :
    ((v.zip rows).foldl (fun sums (factor, row) =>
      if factor == 0 then sums else addMul factor sums row) sums).getD j 0 =
      sums.getD j 0 + Scalar.dot v (column rows j) := by
  induction rows generalizing v sums with
  | nil => simp [column]
  | cons row rows ih =>
    cases v with
    | nil => simp
    | cons factor v =>
      have rest : ∀ row ∈ rows, row.length = n := fun r member => fits r (by simp [member])
      have first : row.length = n := fits row (by simp)
      simp only [List.zip_cons_cons, List.foldl_cons, column, List.map_cons, Scalar.dot_cons]
      by_cases zero : factor = 0
      · have skipped := ih v sums wide rest
        simpa [zero, column] using skipped
      · have added := ih v (addMul factor sums row) ((length_addMul _ _ _).trans wide) rest
        rw [getD_addMul factor (by omega)] at added
        simpa [zero, column, add_assoc] using added

theorem toVector_vecMul {rows : List (List Rat)} {v : List Rat} {n : Nat}
    (high : rows.length = n) (wide : ∀ row ∈ rows, row.length = n) (covered : v.length ≤ n) :
    toVector n (vecMul v rows) = toVector n v ᵥ* toMatrix n rows := by
  funext j
  have start : (List.replicate (rows.headD []).length (0 : Rat)).length = n := by
    cases rows with
    | nil => simpa using high
    | cons row rows => simpa using wide row (by simp)
  have accumulated := getD_accumulate v rows _ start wide j
  have zero : (List.replicate (rows.headD []).length (0 : Rat)).getD j 0 = 0 := by
    simp [List.getD, List.getElem?_replicate]
    split <;> rfl
  rw [zero, zero_add, dot_eq_dotProduct covered] at accumulated
  have entries : toVector n (column rows j) = fun i => toMatrix n rows i j := by
    funext i
    exact getD_column rows j i
  rw [entries] at accumulated
  exact accumulated

end Dense

end LinOpt
