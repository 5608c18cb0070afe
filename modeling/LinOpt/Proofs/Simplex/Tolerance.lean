import Mathlib.Algebra.Order.Group.MinMax
import LinOpt.Proofs.Simplex.PhaseOne

/-!
# Phase one with a tolerance

A positive tolerance makes phase one inexact even in exact arithmetic. A column enters because of
the sum of its entries in the rows of artificial columns, while the ratio test looks at each entry
alone, so a column of small entries can seem to fall forever. And rows with small entries do not
limit a step, so a value can pass zero; it is cut off at zero in the end, before the artificial
values are added up. What such a run leaves can be said exactly: which entries the direction has,
and by how much the point that is left misses the rows.
-/

namespace LinOpt.Simplex

open Finset

/-! ### Directions without a limiting row -/

/-- A direction that phase one takes for unbounded: no basic column falls faster than the tolerance,
and the artificial columns, which are those below `m`, together do. -/
structure Shallow (tolerance : Rat) (m : Nat) (basis : List Nat) (direction : List Rat) :
    Prop where
  distinct : basis.Nodup
  parallel : direction.length = basis.length
  entries : ∀ entry ∈ direction, entry ≤ tolerance
  total : tolerance < ∑ i ∈ range m, spread basis direction i

variable {tolerance : Rat} {m : Nat} {basis : List Nat} {direction : List Rat}

theorem spread_mem (distinct : basis.Nodup) (parallel : direction.length = basis.length) {j : Nat}
    (basic : j ∈ basis) : spread basis direction j ∈ direction := by
  have member : spread basis direction j ∈ basis.map (spread basis direction) :=
    List.mem_map_of_mem basic
  rwa [map_spread distinct parallel] at member

/-- The artificial columns of the basis share the fall of the direction. -/
theorem Shallow.total_le (shallow : Shallow tolerance m basis direction) :
    ∑ i ∈ range m, spread basis direction i ≤ #{i ∈ range m | i ∈ basis} * tolerance := by
  have basic : ∀ i ∈ range m, spread basis direction i ≠ 0 → i ∈ basis := by
    intro i _ nonzero
    by_contra outside
    exact nonzero (spread_of_not_mem outside direction)
  have small : ∀ i ∈ {i ∈ range m | i ∈ basis}, spread basis direction i ≤ tolerance := by
    intro i member
    apply shallow.entries
    exact spread_mem shallow.distinct shallow.parallel (mem_filter.mp member).2
  calc ∑ i ∈ range m, spread basis direction i
      = ∑ i ∈ {i ∈ range m | i ∈ basis}, spread basis direction i :=
        (sum_filter_of_ne basic).symm
    _ ≤ #{i ∈ range m | i ∈ basis} • tolerance := sum_le_card_nsmul _ _ _ small
    _ = #{i ∈ range m | i ∈ basis} * tolerance := nsmul_eq_mul _ _

/-- It takes a positive tolerance and several artificial columns. -/
theorem Shallow.several (shallow : Shallow tolerance m basis direction) (nonneg : 0 ≤ tolerance) :
    0 < tolerance ∧ 1 < #{i ∈ range m | i ∈ basis} := by
  have shared : tolerance < #{i ∈ range m | i ∈ basis} * tolerance :=
    shallow.total.trans_le shallow.total_le
  have positive : 0 < tolerance := by
    apply nonneg.lt_of_ne
    intro zero
    simp [← zero] at shared
  -- One column alone would have to fall faster than the tolerance.
  have several := (lt_mul_iff_one_lt_left positive).mp shared
  exact ⟨positive, by exact_mod_cast several⟩

/-- Some artificial column falls, so it reaches zero. -/
theorem Shallow.falls (shallow : Shallow tolerance m basis direction) (nonneg : 0 ≤ tolerance) :
    ∃ i ∈ basis, i < m ∧ 0 < spread basis direction i := by
  have total : ∑ _i ∈ range m, (0 : Rat) < ∑ i ∈ range m, spread basis direction i := by
    rw [sum_const_zero]
    exact nonneg.trans_lt shallow.total
  obtain ⟨i, member, falls⟩ := exists_lt_of_sum_lt total
  refine ⟨i, ?_, mem_range.mp member, falls⟩
  by_contra outside
  exact falls.ne (spread_of_not_mem outside direction).symm

variable {solver : Solver Rat} {program : Program Rat}

/-- A column enters phase one because the artificial columns fall along its ray by more than the
tolerance, all of them together. -/
theorem entering_total {pricing : PricingRule} {inverse : List (List Rat)} {entering : Nat}
    (valid : program.auxiliary.IsBasis basis)
    (inverted : Dense.invert (program.auxiliary.basisMatrix basis) = some inverse)
    (enters : findEntering pricing tolerance (reducedCosts program.auxiliary basis
      (Dense.vecMul (basis.map program.auxiliary.cost) inverse)) = some entering) :
    tolerance < ∑ i ∈ range program.rows.length,
      spread basis (Dense.mulVec inverse (Dense.column program.auxiliary.rows entering)) i := by
  obtain ⟨cost, listed, negative⟩ := findEntering_some enters
  obtain ⟨small, outside, rfl⟩ := mem_reducedCosts.mp listed
  -- The reduced cost is what the artificial columns change along the ray.
  have change := valid.objective_ray inverted small outside
  rw [Program.objective_auxiliary] at change
  have falls := change.trans_lt negative
  simp only [ray, sum_sub_distrib] at falls
  -- An artificial column that enters again adds its own cost.
  have own : (0 : Rat) ≤ ∑ i ∈ range program.rows.length, if i = entering then 1 else 0 := by
    apply sum_nonneg
    intro i _
    split <;> norm_num
  linarith

/-- Only shallow directions are taken for unbounded by phase one. -/
theorem phaseOne_shallow {ray : UnboundedRay Rat}
    (returned : (phaseOne solver program).result = .ok (.unbounded ray)) :
    Shallow solver.tolerance program.rows.length ray.basis ray.direction := by
  obtain ⟨basis, ⟨entering, direction, same, ended⟩ | ⟨_, _, _, other⟩⟩ := phaseOne_ok returned
  · cases same
    obtain ⟨visited, iterate, evaluated, unbounded⟩ := run_unbounded_visited ended
    obtain ⟨valid, distinct⟩ :=
      Visited.isBasis visited (Program.isBasis_start program) List.nodup_range
    obtain ⟨inverse, inverted, computed, reduced, choice⟩ := iterate_some evaluated
    rw [unbounded, reduced] at choice
    obtain ⟨enters, rfl, stays⟩ := choice
    have parallel := valid.length_mulVec inverted
      (Dense.column program.auxiliary.rows entering)
    refine ⟨distinct, parallel, findLeaving_none ?_ stays, entering_total valid inverted enters⟩
    rw [computed, parallel, valid.length_mulVec inverted]
  · rcases other with ⟨other, _⟩ | ⟨_, _, other, _⟩ <;> cases other

/-! ### Values that are cut off -/

namespace Program

variable (program : Program Rat)

/-- By how much a point misses the rows, all of them together. -/
def violation (x : Nat → Rat) : Rat :=
  ∑ i ∈ range program.rows.length, |program.leftSide x i - program.rightSide i|

/-- What the left sides change at most, all of them together, when the negative ones of the basic
values become zero. -/
def cutOff (basis : List Nat) (values : List Rat) : Rat :=
  ∑ j ∈ range program.numColumns, max (-spread basis values j) 0 *
    ∑ i ∈ range program.rows.length, |program.coefficient i j|

variable {program} {values : List Rat}

theorem cutOff_eq_zero (distinct : basis.Nodup) (parallel : values.length = basis.length)
    (nonneg : ∀ value ∈ values, 0 ≤ value) : program.cutOff basis values = 0 := by
  apply sum_eq_zero
  intro j _
  have value : 0 ≤ spread basis values j := by
    by_cases basic : j ∈ basis
    · exact nonneg _ (spread_mem distinct parallel basic)
    · exact (spread_of_not_mem basic values).ge
  rw [max_eq_right (neg_nonpos.mpr value), zero_mul]

/-- A left side gains what its row has in the columns that are cut off. -/
theorem leftSide_max (x : Nat → Rat) (i : Nat) :
    program.leftSide (fun j => max (x j) 0) i - program.leftSide x i =
      ∑ j ∈ range program.numColumns, program.coefficient i j * max (-x j) 0 := by
  rw [leftSide, leftSide, ← sum_sub_distrib]
  apply sum_congr rfl
  intro j _
  rw [← mul_sub, ← max_sub_sub_right, sub_self, zero_sub, max_comm]

/-- Values that solve the rows miss them by no more than what is cut off. -/
theorem violation_le_cutOff
    (solves : ∀ i < program.rows.length,
      program.leftSide (spread basis values) i = program.rightSide i) :
    program.violation (fun j => max (spread basis values j) 0) ≤ program.cutOff basis values := by
  have missed : ∀ i ∈ range program.rows.length,
      |program.leftSide (fun j => max (spread basis values j) 0) i - program.rightSide i| ≤
        ∑ j ∈ range program.numColumns,
          max (-spread basis values j) 0 * |program.coefficient i j| := by
    intro i member
    rw [← solves i (mem_range.mp member), leftSide_max]
    apply (abs_sum_le_sum_abs _ _).trans
    apply sum_le_sum
    intro j _
    rw [abs_mul, mul_comm, abs_of_nonneg (le_max_right _ _)]
  calc program.violation (fun j => max (spread basis values j) 0)
      ≤ ∑ i ∈ range program.rows.length, ∑ j ∈ range program.numColumns,
          max (-spread basis values j) 0 * |program.coefficient i j| := sum_le_sum missed
    _ = program.cutOff basis values := by
        rw [sum_comm]
        simp only [cutOff, mul_sum]

/-- Without its artificial values a point of the auxiliary program misses the rows by these values
more. -/
theorem violation_given {x : Nat → Rat} (nonneg : ∀ j, 0 ≤ x j) :
    program.violation (fun j => x (program.rows.length + j)) ≤
      ∑ i ∈ range program.rows.length, x i + program.auxiliary.violation x := by
  rw [violation, violation, length_auxiliary, ← sum_add_distrib]
  apply sum_le_sum
  intro i member
  have same : program.auxiliary.rightSide i = program.rightSide i := rfl
  -- The artificial value of a row is a part of its left side.
  calc |program.leftSide (fun j => x (program.rows.length + j)) i - program.rightSide i|
      = |-x i + (program.auxiliary.leftSide x i - program.auxiliary.rightSide i)| := by
        rw [leftSide_auxiliary (mem_range.mp member), same]
        congr 1
        ring
    _ ≤ |-x i| + |program.auxiliary.leftSide x i - program.auxiliary.rightSide i| := abs_add_le _ _
    _ = x i + |program.auxiliary.leftSide x i - program.auxiliary.rightSide i| := by
        rw [abs_neg, abs_of_nonneg (nonneg i)]

end Program

theorem scatter_eq (n : Nat) (basis : List Nat) (values : List Rat) :
    scatter n basis values = (List.range n).map fun j => max (spread basis values j) 0 := by
  apply List.map_congr_left
  intro j _
  unfold spread
  cases (basis.zip values).lookup j with
  | none => simp
  | some value =>
    show (if value ≤ 0 then 0 else value) = max value 0
    split
    next small => exact (max_eq_right small).symm
    next large => exact (max_eq_left (not_le.mp large).le).symm

/-- The basis at which the run of phase one ends, with the iteration that finds no entering
column. -/
structure PhaseOneEnd (solver : Solver Rat) (program : Program Rat) (last : List Nat)
    (iterate : Iterate Rat) : Prop where
  ended : ∃ iterations,
    (run solver program.auxiliary .one (List.range program.rows.length)).result =
      .ok (.optimal last (scatter program.auxiliary.numColumns last iterate.values) iterations)
  evaluated : Simplex.iterate solver.pricing solver.tolerance program.auxiliary last = some iterate
  optimal : iterate.decision = .optimal

namespace PhaseOneEnd

variable {last : List Nat} {iterate : Iterate Rat}

theorem isBasis (ends : PhaseOneEnd solver program last iterate) :
    program.auxiliary.IsBasis last ∧ last.Nodup := by
  obtain ⟨_, ended⟩ := ends.ended
  exact Visited.isBasis (run_optimal_visited ended).1 (Program.isBasis_start program)
    List.nodup_range

/-- Negative or not, the values of the basis solve the rows. -/
theorem solves (ends : PhaseOneEnd solver program last iterate) {i : Nat}
    (row : i < program.auxiliary.rows.length) :
    program.auxiliary.leftSide (spread last iterate.values) i =
      program.auxiliary.rightSide i := by
  obtain ⟨inverse, inverted, computed, -, -⟩ := iterate_some ends.evaluated
  rw [computed, ends.isBasis.1.leftSide_spread inverted _ row]
  rfl

/-- Nothing is cut off unless a value is negative. -/
theorem cutOff_eq_zero (ends : PhaseOneEnd solver program last iterate)
    (nonneg : ∀ value ∈ iterate.values, 0 ≤ value) :
    program.auxiliary.cutOff last iterate.values = 0 :=
  Program.cutOff_eq_zero ends.isBasis.2 (iterate_shape ends.isBasis.1 ends.evaluated).1 nonneg

end PhaseOneEnd

/-- The artificial values of a basis, which are those of the columns below `m`, as far as they are
positive. -/
def leftOver (m : Nat) (basis : List Nat) (values : List Rat) : Rat :=
  ∑ i ∈ range m, max (spread basis values i) 0

/-- What a feasible end of phase one says: the artificial values that are left keep to the limit,
and some point misses the rows by no more than these values and what was cut off. -/
theorem phaseOne_violation {start rows : List Nat} {iterations : Nat}
    (feasible : (phaseOne solver program).result = .ok (.feasible start rows iterations)) :
    ∃ last iterate, PhaseOneEnd solver program last iterate ∧
      leftOver program.rows.length last iterate.values ≤
        infeasibilityLimit solver.tolerance program.rhs ∧
      ∃ x : Nat → Rat, (∀ j, 0 ≤ x j) ∧ program.violation x ≤
        leftOver program.rows.length last iterate.values +
          program.auxiliary.cutOff last iterate.values := by
  obtain ⟨last, ⟨_, _, other, _⟩ | ⟨values, _, ended, other⟩⟩ := phaseOne_ok feasible
  · cases other
  · rcases other with ⟨other, _⟩ | ⟨_, _, _, small, _⟩
    · cases other
    obtain ⟨_, iterate, evaluated, optimal, rfl⟩ := run_optimal_visited ended
    have ends : PhaseOneEnd solver program last iterate := ⟨⟨_, ended⟩, evaluated, optimal⟩
    rw [scatter_eq, sum_take_map _ (by simp [Program.numColumns_auxiliary]), not_lt] at small
    have cut (j : Nat) : 0 ≤ max (spread last iterate.values j) 0 := le_max_right _ _
    refine ⟨last, iterate, ends, small, _, fun j => cut (program.rows.length + j), ?_⟩
    refine (Program.violation_given cut).trans (add_le_add le_rfl ?_)
    exact Program.violation_le_cutOff fun i row => ends.solves row

end LinOpt.Simplex
