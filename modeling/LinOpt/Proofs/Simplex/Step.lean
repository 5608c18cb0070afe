import Mathlib.Algebra.Order.Field.Basic
import LinOpt.Proofs.Simplex.Basis
import LinOpt.Proofs.Simplex.Selection

/-!
# Steps in exact arithmetic

With the tolerance zero an iteration decides rightly about the basic point of its basis. Without an
entering column the point is optimal, because the prices of the basis bound the objective of every
feasible point. With one, the objective falls along the ray of the entering column; the ratio test
stops at the basic point of the next basis, or finds that the ray never leaves the feasible points.
-/

namespace LinOpt.Simplex

open Finset

/-! ### What an iteration computes -/

theorem iterate_some {α : Type} [Scalar α] {pricing : PricingRule} {tolerance : α}
    {program : Program α} {basis : List Nat} {iterate : Iterate α}
    (evaluated : Simplex.iterate pricing tolerance program basis = some iterate) :
    ∃ inverse, Dense.invert (program.basisMatrix basis) = some inverse ∧
      iterate.values = Dense.mulVec inverse program.rhs ∧
      iterate.reducedCosts = reducedCosts program basis
        (Dense.vecMul (basis.map (program.costs.getD · 0)) inverse) ∧
      match iterate.decision with
      | .optimal => findEntering pricing tolerance iterate.reducedCosts = none
      | .pivot entering row =>
        findEntering pricing tolerance iterate.reducedCosts = some entering ∧
          findLeaving pricing tolerance iterate.values
            (Dense.mulVec inverse (Dense.column program.rows entering)) basis = some row
      | .unbounded entering direction =>
        findEntering pricing tolerance iterate.reducedCosts = some entering ∧
          direction = Dense.mulVec inverse (Dense.column program.rows entering) ∧
          findLeaving pricing tolerance iterate.values direction basis = none := by
  unfold Simplex.iterate at evaluated
  split at evaluated
  · cases evaluated
  next inverse inverted =>
    refine ⟨inverse, inverted, ?_⟩
    dsimp only at evaluated
    split at evaluated
    next nothing =>
      cases evaluated
      exact ⟨rfl, rfl, nothing⟩
    next entering enters =>
      cases evaluated
      refine ⟨rfl, rfl, ?_⟩
      dsimp only
      split
      next none =>
        split at none
        · cases none
        · cases none
      next pivot =>
        split at pivot
        next row leaves =>
          cases pivot
          exact ⟨enters, leaves⟩
        · cases pivot
      next unbounded =>
        split at unbounded
        · cases unbounded
        next stays =>
          cases unbounded
          exact ⟨enters, rfl, stays⟩

theorem iterate_none {α : Type} [Scalar α] {pricing : PricingRule} {tolerance : α}
    {program : Program α} {basis : List Nat}
    (failed : Simplex.iterate pricing tolerance program basis = none) :
    Dense.invert (program.basisMatrix basis) = none := by
  unfold Simplex.iterate at failed
  split at failed
  next singular => exact singular
  next =>
    dsimp only at failed
    split at failed <;> cases failed

theorem mem_reducedCosts {α : Type} [Scalar α] {program : Program α} {basis : List Nat}
    {prices : List α} {j : Nat} {reduced : α} :
    (j, reduced) ∈ reducedCosts program basis prices ↔ j < program.numColumns ∧ j ∉ basis ∧
      reduced = program.costs.getD j 0 - program.columnDot prices j := by
  simp only [reducedCosts, List.mem_map, List.mem_filter, List.mem_range, Prod.mk.injEq]
  constructor
  · rintro ⟨k, ⟨small, outside⟩, rfl, rfl⟩
    exact ⟨small, by simpa using outside, rfl⟩
  · rintro ⟨small, outside, rfl⟩
    exact ⟨j, ⟨small, by simpa using outside⟩, rfl, rfl⟩

theorem findEntering_reducedCosts {α : Type} [Scalar α] {pricing : PricingRule} {tolerance : α}
    {program : Program α} {basis : List Nat} {prices : List α} {entering : Nat}
    (enters : findEntering pricing tolerance (reducedCosts program basis prices) = some entering) :
    entering < program.numColumns ∧ entering ∉ basis := by
  obtain ⟨_, listed, _⟩ := findEntering_some enters
  obtain ⟨column, outside, _⟩ := mem_reducedCosts.mp listed
  exact ⟨column, outside⟩

/-- The lists of an iteration are as long as the basis, its entering column is outside the basis and
its leaving row is one of the basis. -/
theorem iterate_shape {α : Type} [Scalar α] {pricing : PricingRule} {tolerance : α}
    {program : Program α} {basis : List Nat} {iterate : Iterate α}
    (valid : program.IsBasis basis)
    (evaluated : Simplex.iterate pricing tolerance program basis = some iterate) :
    iterate.values.length = basis.length ∧ match iterate.decision with
      | .optimal => True
      | .pivot entering row =>
        entering < program.numColumns ∧ entering ∉ basis ∧ row < basis.length
      | .unbounded entering direction =>
        entering < program.numColumns ∧ entering ∉ basis ∧ direction.length = basis.length := by
  obtain ⟨inverse, inverted, values, reduced, choice⟩ := iterate_some evaluated
  rw [values]
  refine ⟨valid.length_mulVec inverted _, ?_⟩
  rw [reduced] at choice
  split at choice
  · trivial
  · obtain ⟨enters, leaves⟩ := choice
    obtain ⟨column, outside⟩ := findEntering_reducedCosts enters
    -- The leaving row has an entry in the direction, which is as long as the basis.
    obtain ⟨_, _, found, _⟩ := findLeaving_limits leaves
    obtain ⟨inside, _⟩ := List.getElem?_eq_some_iff.mp found
    exact ⟨column, outside, inside.trans_eq (valid.length_mulVec inverted _)⟩
  · obtain ⟨enters, rfl, _⟩ := choice
    obtain ⟨column, outside⟩ := findEntering_reducedCosts enters
    exact ⟨column, outside, valid.length_mulVec inverted _⟩

/-! ### The ray of an entering column -/

/-- The change of all columns for each unit of the entering one. -/
def ray (basis : List Nat) (direction : List Rat) (entering j : Nat) : Rat :=
  (if j = entering then 1 else 0) - spread basis direction j

theorem ray_entering {basis : List Nat} {entering : Nat} (outside : entering ∉ basis)
    (direction : List Rat) : ray basis direction entering entering = 1 := by
  rw [ray, if_pos rfl, spread_of_not_mem outside, sub_zero]

theorem ray_outside {basis : List Nat} {entering j : Nat} (outside : j ∉ basis)
    (other : j ≠ entering) (direction : List Rat) : ray basis direction entering j = 0 := by
  rw [ray, if_neg other, spread_of_not_mem outside, sub_zero]

theorem ray_basic {basis : List Nat} {direction : List Rat} {entering k : Nat}
    (outside : entering ∉ basis) (distinct : basis.Nodup)
    (parallel : direction.length = basis.length) (small : k < basis.length) :
    ray basis direction entering basis[k] = -direction[k] := by
  have other : basis[k] ≠ entering := fun same => outside (same ▸ List.getElem_mem small)
  have value : spread basis direction basis[k] = direction[k] := by
    have mapped := map_spread distinct parallel
    rw [← List.getElem_map (f := spread basis direction) (h := by simpa using small)]
    simp only [mapped]
  rw [ray, if_neg other, value, zero_sub]

/-- Only the column in the row of the exchange leaves the basis. -/
theorem leaving_row {basis : List Nat} {entering row k : Nat} (small : k < basis.length)
    (gone : basis[k] ∉ basis.set row entering) : k = row := by
  by_contra different
  refine gone (List.mem_iff_getElem.mpr ⟨k, by simpa using small, ?_⟩)
  rw [List.getElem_set_ne (Ne.symm different)]

namespace Program

/-- The direction of an entering column: the left sides stay level along its ray and the objective
falls. -/
structure Descends (program : Program Rat) (basis : List Nat) (entering : Nat)
    (direction : List Rat) : Prop where
  column : entering < program.numColumns
  outside : entering ∉ basis
  parallel : direction.length = basis.length
  level : ∀ i < program.rows.length, program.leftSide (ray basis direction entering) i = 0
  falls : program.objective (ray basis direction entering) < 0

variable {program : Program Rat} {basis : List Nat} {x : Nat → Rat} {pricing : PricingRule}
  {iterate : Iterate Rat}

/-- The values computed for a basis are those of its basic point. -/
theorem BasicPoint.values_eq (point : program.BasicPoint basis x) (valid : program.IsBasis basis)
    {inverse : List (List Rat)}
    (inverted : Dense.invert (program.basisMatrix basis) = some inverse) :
    Dense.mulVec inverse program.rhs = basis.map x :=
  valid.mulVec_inverse inverted point.support point.solves

/-- At the prices of a basis only the columns outside of it cost more than the rows pay. -/
theorem objective_of_basis (valid : program.IsBasis basis) {inverse : List (List Rat)}
    (inverted : Dense.invert (program.basisMatrix basis) = some inverse) {z : Nat → Rat} :
    program.objective z =
      ∑ i ∈ range program.rows.length,
        (Dense.vecMul (basis.map program.cost) inverse).getD i 0 * program.leftSide z i +
      ∑ j ∈ (range program.numColumns).filter (· ∉ basis),
        (program.cost j - program.columnDot (Dense.vecMul (basis.map program.cost) inverse) j) *
          z j := by
  rw [objective_priced program (Dense.vecMul (basis.map program.cost) inverse) z, sum_filter]
  congr 1
  refine sum_congr rfl fun j _ => ?_
  split
  · rfl
  next basic =>
    rw [valid.columnDot_prices inverted (not_not.mp basic), sub_self, zero_mul]

/-- Prices with no reduced cost below zero bound the objective of every feasible point. -/
theorem BasicPoint.optimal (point : program.BasicPoint basis x) (valid : program.IsBasis basis)
    (evaluated : Simplex.iterate pricing 0 program basis = some iterate)
    (decision : iterate.decision = .optimal) {z : Nat → Rat} (feasible : program.Feasible z) :
    program.objective x ≤ program.objective z := by
  obtain ⟨inverse, inverted, -, reduced, choice⟩ := iterate_some evaluated
  rw [decision] at choice
  rw [objective_of_basis valid inverted, objective_of_basis valid inverted]
  -- The rows pay both points the same, and no column outside the basis earns anything.
  refine add_le_add (le_of_eq ?_) ?_
  · refine sum_congr rfl fun i row => ?_
    have row := mem_range.mp row
    rw [point.solves i row, feasible.solves i row]
  · refine sum_le_sum fun j member => ?_
    obtain ⟨small, outside⟩ := mem_filter.mp member
    have listed : (j, program.cost j -
        program.columnDot (Dense.vecMul (basis.map program.cost) inverse) j) ∈
          iterate.reducedCosts := by
      rw [reduced]
      exact mem_reducedCosts.mpr ⟨mem_range.mp small, outside, rfl⟩
    have nonneg := findEntering_none choice _ listed
    rw [point.support j outside, mul_zero]
    exact mul_nonneg (by simpa using nonneg) (feasible.nonneg j)

/-- What an entering column adds to a row, the basic columns take away. -/
theorem IsBasis.ray_level (valid : program.IsBasis basis) {inverse : List (List Rat)}
    (inverted : Dense.invert (program.basisMatrix basis) = some inverse) {entering : Nat}
    (small : entering < program.numColumns) {i : Nat} (row : i < program.rows.length) :
    program.leftSide (ray basis
      (Dense.mulVec inverse (Dense.column program.rows entering)) entering) i = 0 := by
  have solved := valid.leftSide_spread inverted (Dense.column program.rows entering) row
  rw [Dense.getD_column] at solved
  simp only [leftSide, ray, mul_sub, sum_sub_distrib] at solved ⊢
  rw [solved, sum_eq_single_of_mem entering (mem_range.mpr small)
    (fun j _ other => by rw [if_neg other, mul_zero]), if_pos rfl, mul_one]
  exact sub_self _

/-- Along the ray the rows are level, so the reduced cost alone is paid. -/
theorem IsBasis.objective_ray (valid : program.IsBasis basis) {inverse : List (List Rat)}
    (inverted : Dense.invert (program.basisMatrix basis) = some inverse) {entering : Nat}
    (small : entering < program.numColumns) (outside : entering ∉ basis) :
    program.objective (ray basis
        (Dense.mulVec inverse (Dense.column program.rows entering)) entering) =
      program.cost entering -
        program.columnDot (Dense.vecMul (basis.map program.cost) inverse) entering := by
  have priced := objective_of_basis valid inverted (z := ray basis
    (Dense.mulVec inverse (Dense.column program.rows entering)) entering)
  rw [sum_eq_zero fun i row => by
      rw [valid.ray_level inverted small (mem_range.mp row), mul_zero], zero_add,
    sum_eq_single_of_mem entering (mem_filter.mpr ⟨mem_range.mpr small, outside⟩)
      (fun j member other => by
        rw [ray_outside (mem_filter.mp member).2 other, mul_zero]),
    ray_entering outside, mul_one] at priced
  exact priced

/-- An entering column comes with a descending direction. -/
theorem descends {tolerance : Rat} (nonneg : 0 ≤ tolerance) (valid : program.IsBasis basis)
    {inverse : List (List Rat)}
    (inverted : Dense.invert (program.basisMatrix basis) = some inverse) {entering : Nat}
    (enters : findEntering pricing tolerance (reducedCosts program basis
      (Dense.vecMul (basis.map program.cost) inverse)) = some entering) :
    program.Descends basis entering
      (Dense.mulVec inverse (Dense.column program.rows entering)) := by
  obtain ⟨reduced, listed, negative⟩ := findEntering_some enters
  obtain ⟨small, outside, rfl⟩ := mem_reducedCosts.mp listed
  refine ⟨small, outside, valid.length_mulVec inverted _,
    fun i => valid.ray_level inverted small, ?_⟩
  rw [valid.objective_ray inverted small outside]
  exact negative.trans_le (neg_nonpos.mpr nonneg)

/-- Moving along the ray keeps the rows solved. -/
theorem Descends.solves {entering : Nat} {direction : List Rat}
    (descends : program.Descends basis entering direction)
    (solves : ∀ i < program.rows.length, program.leftSide x i = program.rightSide i) (t : Rat) :
    ∀ i < program.rows.length,
      program.leftSide (fun j => x j + t * ray basis direction entering j) i =
        program.rightSide i := by
  intro i row
  rw [leftSide_add_mul, descends.level i row, mul_zero, add_zero, solves i row]

/-- Of the old basis only the leaving column is no longer basic, and the step brings it to zero. -/
theorem Descends.support {entering row : Nat} {direction : List Rat}
    (descends : program.Descends basis entering direction) (support : ∀ j, j ∉ basis → x j = 0)
    (distinct : basis.Nodup) (inside : row < basis.length) {entry : Rat}
    (found : direction[row]? = some entry) (nonzero : entry ≠ 0) (j : Nat)
    (outside : j ∉ basis.set row entering) :
    x j + x basis[row] / entry * ray basis direction entering j = 0 := by
  obtain ⟨_, rfl⟩ := List.getElem?_eq_some_iff.mp found
  have other : j ≠ entering := fun same => outside (same ▸ List.mem_set inside entering)
  by_cases basic : j ∈ basis
  · obtain ⟨k, small, rfl⟩ := List.getElem_of_mem basic
    obtain rfl := leaving_row small outside
    rw [ray_basic descends.outside distinct descends.parallel small, mul_neg,
      div_mul_cancel₀ _ nonzero, add_neg_cancel]
  · rw [support j basic, ray_outside basic other, mul_zero, add_zero]

theorem larger_zero {value : Rat} (nonneg : 0 ≤ value) : Scalar.larger value 0 = value := by
  have kept : ¬ (value < 0 ∨ Scalar.isNaN value = true) := by
    rintro (negative | nan)
    · exact absurd negative (not_lt.mpr nonneg)
    · simp [Scalar.isNaN] at nan
  simp only [Scalar.larger, Bool.or_eq_true, decide_eq_true_eq]
  exact if_neg kept

/-- A step that no ratio is below leaves no column negative. -/
theorem Descends.nonneg {entering : Nat} {direction : List Rat} {step : Rat}
    (descends : program.Descends basis entering direction) (feasible : program.Feasible x)
    (distinct : basis.Nodup) (forth : 0 ≤ step)
    (least : ∀ (k : Nat) (entry value : Rat), direction[k]? = some entry →
      (basis.map x)[k]? = some value → 0 < entry → step ≤ Scalar.larger value 0 / entry) (j : Nat) :
    0 ≤ x j + step * ray basis direction entering j := by
  by_cases same : j = entering
  · rw [same, ray_entering descends.outside, mul_one]
    exact add_nonneg (feasible.nonneg _) forth
  · by_cases basic : j ∈ basis
    · obtain ⟨k, small, rfl⟩ := List.getElem_of_mem basic
      have small' : k < direction.length := descends.parallel.symm ▸ small
      rw [ray_basic descends.outside distinct descends.parallel small]
      have value := feasible.nonneg basis[k]
      rcases le_or_gt direction[k] 0 with falling | rising
      · -- The column grows with the step.
        have grown := mul_nonneg forth (neg_nonneg.mpr falling)
        exact add_nonneg value grown
      · -- The column shrinks, and its own ratio is no less than the step.
        have ratio := least k direction[k] (x basis[k]) (List.getElem?_eq_getElem small')
          (by simp [small]) rising
        rw [larger_zero value, le_div_iff₀ rising] at ratio
        linarith
    · rw [ray_outside basic same, mul_zero, add_zero]
      exact feasible.nonneg j

/-- The ratio test stops at the basic point of the next basis: the step is the ratio of the leaving
row, and no column becomes negative before. -/
theorem Descends.pivot {entering row : Nat} {direction : List Rat}
    (descends : program.Descends basis entering direction)
    (point : program.BasicPoint basis x) (distinct : basis.Nodup)
    (leaves : findLeaving pricing 0 (basis.map x) direction basis = some row) :
    ∃ (inside : row < basis.length) (entry : Rat), direction[row]? = some entry ∧ 0 < entry ∧
      program.BasicPoint (basis.set row entering) fun j =>
        x j + x basis[row] / entry * ray basis direction entering j := by
  obtain ⟨entry, value, first, second, positive, least⟩ := findLeaving_some leaves
  obtain ⟨short, rfl⟩ := List.getElem?_eq_some_iff.mp first
  obtain ⟨inside, rfl⟩ := List.getElem?_eq_some_iff.mp second
  have inside : row < basis.length := by simpa using inside
  rw [List.getElem_map, larger_zero (point.nonneg _)] at least
  have forth : 0 ≤ x basis[row] / direction[row] := div_nonneg (point.nonneg _) positive.le
  exact ⟨inside, direction[row], first, positive,
    ⟨descends.nonneg point.toFeasible distinct forth least, descends.solves point.solves _⟩,
    descends.support point.support distinct inside first positive.ne'⟩

/-- Without a limiting row the ray never leaves the feasible points. -/
theorem Descends.unlimited {entering : Nat} {direction : List Rat}
    (descends : program.Descends basis entering direction) (feasible : program.Feasible x)
    (distinct : basis.Nodup) (falling : ∀ entry ∈ direction, entry ≤ 0) {t : Rat} (forth : 0 ≤ t) :
    program.Feasible fun j => x j + t * ray basis direction entering j := by
  refine ⟨fun j => ?_, descends.solves feasible.solves t⟩
  have rising : 0 ≤ ray basis direction entering j := by
    by_cases same : j = entering
    · rw [same, ray_entering descends.outside]
      exact zero_le_one
    · by_cases basic : j ∈ basis
      · obtain ⟨k, small, rfl⟩ := List.getElem_of_mem basic
        rw [ray_basic descends.outside distinct descends.parallel small]
        exact neg_nonneg.mpr (falling _ (List.getElem_mem _))
      · rw [ray_outside basic same]
  exact add_nonneg (feasible.nonneg j) (mul_nonneg forth rising)

/-- Far enough along such a ray the objective is below any bound. -/
theorem Descends.below {entering : Nat} {direction : List Rat}
    (descends : program.Descends basis entering direction) (feasible : program.Feasible x)
    (distinct : basis.Nodup) (falling : ∀ entry ∈ direction, entry ≤ 0) (bound : Rat) :
    ∃ z, program.Feasible z ∧ program.objective z < bound := by
  set slope := program.objective (ray basis direction entering) with slope_def
  have falls : slope < 0 := descends.falls
  -- The step at which the objective would pass the bound, and one unit more.
  set step := max 0 ((bound - program.objective x) / slope) + 1 with step_def
  have forth : 0 ≤ step := add_nonneg (le_max_left _ _) zero_le_one
  refine ⟨_, descends.unlimited feasible distinct falling forth, ?_⟩
  have far : (bound - program.objective x) / slope < step :=
    (le_max_right _ _).trans_lt (lt_add_one _)
  rw [objective_add_mul]
  have passed : step * slope < bound - program.objective x := (div_lt_iff_of_neg falls).mp far
  linarith

end Program

end LinOpt.Simplex
