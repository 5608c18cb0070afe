import Mathlib.LinearAlgebra.Matrix.ToLinearEquiv
import LinOpt.Proofs.Simplex.Removal

/-!
# Independent bases

The columns of a basis are independent when no point but zero has only basic columns and all left
sides zero; then the basis matrix is nonsingular. Every exchange of the simplex method keeps the
columns independent, because the entry at which it exchanges is not zero, and so does leaving out a
row together with its artificial column.
-/

namespace LinOpt.Simplex

open Finset Matrix

namespace Program

/-- Only zero combines the columns of the basis to zero. -/
structure Independent (program : Program Rat) (basis : List Nat) : Prop where
  distinct : basis.Nodup
  trivial : ∀ x : Nat → Rat, (∀ j, j ∉ basis → x j = 0) →
    (∀ i < program.rows.length, program.leftSide x i = 0) → ∀ j, x j = 0

variable {program : Program Rat} {basis : List Nat} {inverse : List (List Rat)}

/-- A basis with independent columns has a nonsingular matrix. -/
theorem IsBasis.isUnit (valid : program.IsBasis basis) (independent : program.Independent basis) :
    IsUnit (Dense.toMatrix program.rows.length (program.basisMatrix basis)) := by
  refine Matrix.mulVec_injective_iff_isUnit.mp
    ((injective_iff_map_eq_zero (Matrix.mulVecLin _)).mpr fun v level => ?_)
  have parallel : (List.ofFn v).length = basis.length := by rw [List.length_ofFn, valid.length]
  have coordinates : Dense.toVector program.rows.length (List.ofFn v) = v := by
    funext k
    simp [Dense.toVector, List.getD]
  -- The point with the coordinates `v` is level in all rows, so it is zero.
  have zero := independent.trivial (spread basis (List.ofFn v))
    (fun j outside => spread_of_not_mem outside _) fun i row => by
      have left := valid.leftSide_basic independent.distinct
        (fun j outside => spread_of_not_mem outside (List.ofFn v)) ⟨i, row⟩
      rw [map_spread independent.distinct parallel, coordinates] at left
      exact left.trans (congrFun level _)
  funext k
  have values := map_spread independent.distinct parallel
  rw [List.map_congr_left fun j _ => zero j] at values
  rw [← coordinates, ← values]
  simp [Dense.toVector, List.getD]

/-- The columns of a basis that has been inverted are independent. -/
theorem IsBasis.independent (valid : program.IsBasis basis)
    (inverted : Dense.invert (program.basisMatrix basis) = some inverse) :
    program.Independent basis where
  distinct := valid.nodup inverted
  trivial x support level j := by
    by_cases basic : j ∈ basis
    · -- The inverse takes the zero right side to the coordinates of the point.
      have coordinates : Dense.mulVec inverse [] = basis.map x :=
        valid.mulVec_inverse inverted support level
      have member : x j ∈ Dense.mulVec inverse [] :=
        coordinates ▸ List.mem_map_of_mem basic
      obtain ⟨row, _, same⟩ := List.mem_map.mp member
      rw [← same, Scalar.dot_nil_right]
    · exact support j basic

/-- A column takes the place of a basic one at an entry of its direction that is not zero. -/
theorem IsBasis.independent_set (valid : program.IsBasis basis)
    (inverted : Dense.invert (program.basisMatrix basis) = some inverse) {entering row : Nat}
    (column : entering < program.numColumns) (outside : entering ∉ basis) {entry : Rat}
    (found : (Dense.mulVec inverse (Dense.column program.rows entering))[row]? = some entry)
    (nonzero : entry ≠ 0) : program.Independent (basis.set row entering) := by
  set direction := Dense.mulVec inverse (Dense.column program.rows entering) with direction_def
  have distinct := valid.nodup inverted
  have parallel : direction.length = basis.length := valid.length_mulVec inverted _
  obtain ⟨inside, rfl⟩ := List.getElem?_eq_some_iff.mp found
  have position : row < basis.length := parallel ▸ inside
  refine ⟨distinct.set outside, fun x support level => ?_⟩
  -- Going back along the ray until the entering column is zero leads to a point of the old basis.
  have back := (valid.independent inverted).trivial
    (fun j => x j + -x entering * ray basis direction entering j) (fun j fresh => ?_)
    fun i row => ?_
  · have leaving : basis[row] ∉ basis.set row entering := by
      intro member
      obtain ⟨k, small, same⟩ := List.getElem_of_mem member
      rw [List.getElem_set] at same
      split at same
      · exact outside (same ▸ List.getElem_mem position)
      next different => exact different ((distinct.getElem_inj_iff).mp same).symm
    have zero := back basis[row]
    rw [support _ leaving, ray_basic outside distinct parallel position, zero_add, neg_mul_neg]
      at zero
    have still := (mul_eq_zero.mp zero).resolve_right nonzero
    intro j
    have same := back j
    rwa [still, neg_zero, zero_mul, add_zero] at same
  · by_cases same : j = entering
    · rw [same, ray_entering outside, mul_one, add_neg_cancel]
    · have old : j ∉ basis.set row entering := fun member =>
        (List.mem_or_eq_of_mem_set member).elim fresh same
      rw [support j old, ray_outside fresh same, mul_zero, add_zero]
  · rw [leftSide_add_mul, level i row, valid.ray_level inverted column row, mul_zero, add_zero]

end Program

/-! ### Runs -/

section Runs

variable {program : Program Rat} {start basis next last : List Nat} {pricing : PricingRule}
  {tolerance : Rat}

theorem Pivots.independent (pivots : Pivots pricing tolerance program basis next)
    (nonneg : 0 ≤ tolerance) (valid : program.IsBasis basis) : program.Independent next := by
  obtain ⟨_, _, _, _, inverted, rfl, column, outside, found, large⟩ := pivots.exchange
  exact valid.independent_set inverted column outside found
    (nonneg.trans_lt (not_le.mp large)).ne'

/-- Every basis that a run visits has independent columns if the first one has. -/
theorem Visited.independent (visited : Visited pricing tolerance program start last)
    (nonneg : 0 ≤ tolerance) (valid : program.IsBasis start)
    (independent : program.Independent start) : program.Independent last := by
  induction visited with
  | refl => exact independent
  | tail before pivots _ =>
    exact pivots.independent nonneg (Visited.isBasis before valid independent.distinct).1

end Runs

/-! ### The removal of artificial columns -/

section Removal

variable {program : Program Rat} {rows basis : List Nat} {tolerance : Rat}
  {state next : Remaining}

theorem Program.independent_restrict : (program.restrict rows).Independent basis ↔
    basis.Nodup ∧ ∀ x : Nat → Rat, (∀ j, j ∉ basis → x j = 0) →
      (∀ r ∈ rows, program.leftSide x r = 0) → ∀ j, x j = 0 := by
  have level (x : Nat → Rat) :
      (∀ k < (program.restrict rows).rows.length, (program.restrict rows).leftSide x k = 0) ↔
        ∀ r ∈ rows, program.leftSide x r = 0 := by
    rw [Program.length_restrict]
    constructor
    · intro all r member
      obtain ⟨k, small, rfl⟩ := List.getElem_of_mem member
      have here := all k small
      rwa [Program.leftSide_restrict small, List.getD_eq_getElem _ _ small] at here
    · intro all k small
      rw [Program.leftSide_restrict small, List.getD_eq_getElem _ _ small]
      exact all _ (List.getElem_mem small)
  constructor
  · rintro ⟨distinct, trivial⟩
    exact ⟨distinct, fun x support all => trivial x support ((level x).mpr all)⟩
  · rintro ⟨distinct, trivial⟩
    exact ⟨distinct, fun x support all => trivial x support ((level x).mp all)⟩

/-- The artificial columns are independent. -/
theorem Program.independent_start (program : Program Rat) :
    program.auxiliary.Independent (List.range program.rows.length) where
  distinct := List.nodup_range
  trivial x support level j := by
    by_cases artificial : j < program.rows.length
    · have here := level j (artificial.trans_eq (Program.length_auxiliary program).symm)
      have given : program.leftSide (fun k => x (program.rows.length + k)) j = 0 :=
        sum_eq_zero fun k _ => by
          dsimp only
          rw [support _ (by simp), mul_zero]
      rwa [Program.leftSide_auxiliary artificial, given, add_zero] at here
    · exact support j (by simpa using artificial)

/-- A column that takes the place of an artificial one has an entry in its row of the inverse; an
artificial column without its row adds nothing to the rows that remain. -/
theorem Round.independent (round : Round tolerance program.auxiliary program.rows.length state next)
    (nonneg : 0 ≤ tolerance) (sound : state.Sound program) :
    (program.auxiliary.restrict next.rows).Independent next.basis := by
  have valid := sound.isBasis
  cases round with
  | @replace rows kept pending column j inverse done artificial inverted found =>
    obtain ⟨_, wide, fresh, large⟩ := replacement?_some found
    have inside : kept.length < (kept ++ column :: pending).length := by simp
    have set : kept ++ j :: pending = (kept ++ column :: pending).set kept.length j := by simp
    have position := inside.trans_eq (valid.length_mulVec inverted
      (Dense.column (program.auxiliary.restrict rows).rows j)).symm
    show Program.Independent _ (kept ++ j :: pending)
    rw [set]
    refine valid.independent_set inverted wide fresh (List.getElem?_eq_getElem position) ?_
    -- The entry is the product that was found to be above the tolerance.
    rw [← List.getD_eq_getElem _ 0, Dense.getD_mulVec, Scalar.dot_comm]
    intro zero
    rw [Program.columnDot, zero] at large
    exact absurd (nonneg.trans_lt large) (lt_irrefl _)
  | @drop rows kept pending column inverse done artificial inverted nothing row =>
    have distinct : (kept ++ column :: pending).Nodup := sound.distinct
    obtain ⟨_, trivial⟩ := Program.independent_restrict.mp (valid.independent inverted)
    have outside : column ∉ kept ++ pending := (List.nodup_middle.mp distinct).notMem
    refine Program.independent_restrict.mpr ⟨(List.nodup_middle.mp distinct).of_cons,
      fun x support level => ?_⟩
    -- Taking back what the left side of the dropped row is, in its own artificial column, leaves
    -- all the rows level.
    have zero := trivial
      (fun j => x j + -program.auxiliary.leftSide x column * (Pi.single column 1 : Nat → Rat) j)
      (fun j fresh => ?_) fun r member => ?_
    · intro j
      by_cases same : j = column
      · exact support j (same ▸ outside)
      · have here := zero j
        rwa [Pi.single_eq_of_ne same, mul_zero, add_zero] at here
    · simp only [List.mem_append, List.mem_cons, not_or] at fresh
      rw [Pi.single_eq_of_ne fresh.2.1, mul_zero, add_zero]
      exact support j (by simp [fresh])
    · rw [Program.leftSide_add_mul, Program.leftSide_single (sound.row_lt member)
        artificial]
      by_cases same : r = column
      · rw [same, if_pos rfl, mul_one, add_neg_cancel]
      · rw [if_neg same, mul_zero, add_zero]
        exact level r ((List.mem_erase_of_ne same).mpr member)

theorem Rounds.independent
    (rounds : Rounds tolerance program.auxiliary program.rows.length state next)
    (nonneg : 0 ≤ tolerance) (sound : state.Sound program)
    (independent : (program.auxiliary.restrict state.rows).Independent state.basis) :
    (program.auxiliary.restrict next.rows).Independent next.basis := by
  induction rounds with
  | refl => exact independent
  | tail before round _ => exact round.independent nonneg (Rounds.sound before sound)

/-- Once no artificial column is left, the columns are independent in the program itself. -/
theorem Remaining.Sound.independent (sound : state.Sound program)
    (done : ∀ j ∈ state.basis, program.rows.length ≤ j)
    (independent : (program.auxiliary.restrict state.rows).Independent state.basis) :
    (program.restrict state.rows).Independent
      (state.basis.map (· - program.rows.length)) := by
  obtain ⟨_, trivial⟩ := Program.independent_restrict.mp independent
  refine Program.independent_restrict.mpr ⟨(sound.given done).2, fun x support level j => ?_⟩
  have zero := trivial
    (fun k => if k < program.rows.length then 0 else x (k - program.rows.length))
    (fun k fresh => ?_) (fun r member => ?_) (program.rows.length + j)
  · simpa using zero
  · split
    · rfl
    next large =>
      refine support _ fun member => fresh ?_
      obtain ⟨l, listed, same⟩ := List.mem_map.mp member
      have low := done l listed
      obtain rfl : l = k := by omega
      exact listed
  · have shifted : (fun k => if program.rows.length + k < program.rows.length then 0
        else x (program.rows.length + k - program.rows.length)) = x := by
      funext k
      simp
    have row := sound.row_lt member
    rw [Program.leftSide_auxiliary row, if_pos row, zero_add, shifted]
    exact level r member

end Removal

end LinOpt.Simplex
