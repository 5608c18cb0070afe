import Mathlib.Order.ConditionallyCompleteLattice.Basic
import LinOpt.Proofs.Simplex.Run

/-!
# Bland's rule does not cycle

In exact arithmetic with the tolerance zero, no pivot raises the objective of the basic point, and
one that does not lower it leaves the point where it is. A run that comes back to a set of basic
columns would therefore stay at one point all the way round. Some columns come and go on the way;
take the highest of them. Where it leaves, another column enters, along whose ray the objective
falls. Where it enters, the prices of that basis say how much the objective changes along this ray,
and since Bland's rule preferred it only over higher columns, no column contributes a loss. The two
readings contradict each other.
-/

namespace LinOpt.Simplex

open Finset

/-! ### Giving up a property -/

/-- What holds at the start of a run and not at its end is given up by one of its pivots. -/
theorem Visited.gives_up {α : Type} [Scalar α] {pricing : PricingRule} {tolerance : α}
    {program : Program α} {first last : List Nat} {P : List Nat → Prop}
    (visited : Visited pricing tolerance program first last) (holds : P first) (fails : ¬ P last) :
    ∃ basis next, Visited pricing tolerance program first basis ∧
      Pivots pricing tolerance program basis next ∧
      Visited pricing tolerance program next last ∧ P basis ∧ ¬ P next := by
  induction visited with
  | refl => exact absurd holds fails
  | @tail basis next visited pivots ih =>
    by_cases still : P basis
    · exact ⟨basis, next, visited, pivots, .refl, still, fails⟩
    · obtain ⟨earlier, later, before, step, after, rest⟩ := ih still
      exact ⟨earlier, later, before, step, after.tail pivots, rest⟩

variable {program : Program Rat} {first second last basis next : List Nat} {x y : Nat → Rat}

/-- A basis with an inverse has one basic point. -/
theorem Program.BasicPoint.unique (point : program.BasicPoint basis x)
    (other : program.BasicPoint basis y) (valid : program.IsBasis basis)
    {inverse : List (List Rat)}
    (inverted : Dense.invert (program.basisMatrix basis) = some inverse) : x = y := by
  have values := (point.values_eq valid inverted).symm.trans (other.values_eq valid inverted)
  funext j
  by_cases basic : j ∈ basis
  · exact List.map_inj_left.mp values j basic
  · rw [point.support j basic, other.support j basic]

/-! ### Cycles -/

/-- A run of Bland's rule that leaves the first basis and ends at one with the same columns. -/
structure Cycle (program : Program Rat) (first second last : List Nat) : Prop where
  leaves : Pivots .bland 0 program first second
  returns : Visited .bland 0 program second last
  same : ∀ j, j ∈ last ↔ j ∈ first

/-- The basis lies on the way from the first basis to the last. -/
structure Between (program : Program Rat) (first last basis : List Nat) : Prop where
  before : Visited .bland 0 program first basis
  after : Visited .bland 0 program basis last

/-- The column is basic somewhere on the way and not basic somewhere else. -/
structure Fickle (program : Program Rat) (first last : List Nat) (j : Nat) : Prop where
  basic : ∃ basis, Between program first last basis ∧ j ∈ basis
  free : ∃ basis, Between program first last basis ∧ j ∉ basis

/-- On the way round, what holds somewhere and not everywhere is given up by one of the pivots. -/
theorem Between.gives_up {P : List Nat → Prop} {here there : List Nat} (same : P last ↔ P first)
    (between : Between program first last here) (holds : P here)
    (between' : Between program first last there) (fails : ¬ P there) :
    ∃ basis next, Between program first last basis ∧ Between program first last next ∧
      Pivots .bland 0 program basis next ∧ P basis ∧ ¬ P next := by
  obtain ⟨before, after⟩ := between
  obtain ⟨before', after'⟩ := between'
  by_cases final : P last
  · -- It holds again where the cycle starts, and is given up on the way from there.
    obtain ⟨basis, next, one, pivots, two, rest⟩ :=
      Visited.gives_up before' (same.mp final) fails
    exact ⟨basis, next, ⟨one, .head pivots (two.trans after')⟩,
      ⟨one.tail pivots, two.trans after'⟩, pivots, rest⟩
  · obtain ⟨basis, next, one, pivots, two, rest⟩ := Visited.gives_up after holds final
    exact ⟨basis, next, ⟨before.trans one, .head pivots two⟩,
      ⟨(before.trans one).tail pivots, two⟩, pivots, rest⟩

namespace Cycle

/-- All bases of a cycle have the same basic point. -/
theorem stays (cycle : Cycle program first second last) (valid : program.IsBasis first)
    (point : program.BasicPoint first x) (between : Between program first last basis) :
    program.IsBasis basis ∧ program.BasicPoint basis x := by
  obtain ⟨_, _, _, _, inverted, _⟩ := cycle.leaves.parts valid point
  obtain ⟨valid', y, there, below, level⟩ := Visited.basicPoint between.before valid point
  obtain ⟨_, z, back, below', _⟩ := Visited.basicPoint between.after valid' there
  -- The last basis has the columns of the first, so the run is back at the point it left.
  have around : program.BasicPoint first z :=
    ⟨back.toFeasible, fun j outside => back.support j fun member =>
      outside ((cycle.same j).mp member)⟩
  have returned := point.unique around valid inverted
  rw [← returned] at below'
  have same := level (le_antisymm below below')
  exact ⟨valid', same ▸ there⟩

/-- Some column comes and goes, and one of them is the highest. -/
theorem exists_highest (cycle : Cycle program first second last) (valid : program.IsBasis first)
    (point : program.BasicPoint first x) :
    ∃ t, Fickle program first last t ∧ ∀ j, Fickle program first last j → j ≤ t := by
  obtain ⟨_, entering, row, _, _, distinct, rfl, _, descends, leaves⟩ :=
    cycle.leaves.parts valid point
  obtain ⟨inside, _⟩ := descends.pivot point distinct leaves
  have fickle : Fickle program first last entering :=
    ⟨⟨_, ⟨.single cycle.leaves, cycle.returns⟩, List.mem_set inside entering⟩,
      ⟨first, ⟨.refl, .head cycle.leaves cycle.returns⟩, descends.outside⟩⟩
  have bounded : BddAbove {j | Fickle program first last j} := by
    refine ⟨program.numColumns, fun j fickle => ?_⟩
    obtain ⟨basis, between, member⟩ := fickle.basic
    exact ((cycle.stays valid point between).1.columns j member).le
  exact ⟨sSup {j | Fickle program first last j}, Nat.sSup_mem ⟨entering, fickle⟩ bounded,
    fun j member => le_csSup bounded member⟩

end Cycle

/-! ### What Bland's rule says about a column -/

/-- Where a column enters, the reduced costs of the basis price every level direction; that of the
column is negative, and those of the lower columns are not. -/
theorem Pivots.entering_bland (pivots : Pivots .bland 0 program basis next)
    (valid : program.IsBasis basis) (point : program.BasicPoint basis x) {t : Nat}
    (outside : t ∉ basis) (member : t ∈ next) :
    ∃ reduced : Nat → Rat, reduced t < 0 ∧
      (∀ j < t, j < program.numColumns → j ∉ basis → 0 ≤ reduced j) ∧
      ∀ z, (∀ i < program.rows.length, program.leftSide z i = 0) →
        program.objective z =
          ∑ j ∈ (range program.numColumns).filter (· ∉ basis), reduced j * z j := by
  obtain ⟨inverse, entering, row, _, inverted, _, rfl, enters, _⟩ := pivots.parts valid point
  obtain rfl : t = entering := (List.mem_or_eq_of_mem_set member).resolve_left outside
  set prices := Dense.vecMul (basis.map program.cost) inverse with prices_def
  refine ⟨fun j => program.cost j - program.columnDot prices j, ?_, ?_, ?_⟩
  · obtain ⟨reduced, mentioned, negative⟩ := findEntering_some enters
    obtain ⟨_, _, rfl⟩ := mem_reducedCosts.mp mentioned
    exact negative.trans_eq neg_zero
  · intro j before small free
    have mentioned : (j, program.cost j - program.columnDot prices j) ∈
        reducedCosts program basis prices := mem_reducedCosts.mpr ⟨small, free, rfl⟩
    have kept := findEntering_bland (reducedCosts_increasing program basis prices) enters _
      mentioned before
    simpa using kept
  · intro z level
    rw [Program.objective_of_basis valid inverted,
      sum_eq_zero fun i row => by rw [level i (mem_range.mp row), mul_zero], zero_add]

/-- Where a column leaves at zero, another one enters along whose ray it falls, while no lower basic
column at zero does. -/
theorem Pivots.leaving_bland (pivots : Pivots .bland 0 program basis next)
    (valid : program.IsBasis basis) (point : program.BasicPoint basis x) {t : Nat}
    (member : t ∈ basis) (outside : t ∉ next) (zero : x t = 0) :
    ∃ s direction, s ∈ next ∧ program.Descends basis s direction ∧ ray basis direction s t < 0 ∧
      ∀ j ∈ basis, j < t → x j = 0 → 0 ≤ ray basis direction s j := by
  obtain ⟨_, entering, row, direction, _, distinct, rfl, _, descends, leaves⟩ :=
    pivots.parts valid point
  obtain ⟨entry, value, found, given, positive, lowest⟩ := findLeaving_bland leaves
  obtain ⟨short, rfl⟩ := List.getElem?_eq_some_iff.mp found
  have inside : row < basis.length := descends.parallel ▸ short
  -- The only basic column that does not remain is the one in the row of the pivot.
  obtain ⟨k, small, rfl⟩ := List.getElem_of_mem member
  obtain rfl := leaving_row small outside
  refine ⟨entering, direction, List.mem_set inside entering, descends, ?_, ?_⟩
  · rw [ray_basic descends.outside distinct descends.parallel inside]
    exact neg_neg_of_pos positive
  · intro j basic before zero'
    obtain ⟨l, small', rfl⟩ := List.getElem_of_mem basic
    have short' : l < direction.length := descends.parallel.symm ▸ small'
    rw [ray_basic descends.outside distinct descends.parallel small']
    by_contra falling
    -- A lower column at zero that falls would tie with the leaving one and be preferred to it.
    have rising : 0 < direction[l] := neg_neg_iff_pos.mp (not_le.mp falling)
    have values : value = 0 := by
      rw [List.getElem?_map, List.getElem?_eq_getElem inside, Option.map_some, zero] at given
      exact (Option.some.inj given).symm
    have low := lowest l direction[l] 0 (List.getElem?_eq_getElem short')
      (by rw [List.getElem?_map, List.getElem?_eq_getElem small', Option.map_some, zero']) rising
      (by rw [values, Program.larger_zero le_rfl, zero_div, zero_div])
    rw [List.getD_eq_getElem _ _ inside, List.getD_eq_getElem _ _ small'] at low
    exact absurd before (not_lt.mpr low)

/-! ### The contradiction -/

/-- Bland's rule has no cycles. -/
theorem Cycle.false (cycle : Cycle program first second last) (valid : program.IsBasis first)
    (point : program.BasicPoint first x) : False := by
  obtain ⟨t, fickle, highest⟩ := cycle.exists_highest valid point
  -- A column that comes and goes is zero at the point where all bases of the cycle meet.
  have zero : ∀ j, Fickle program first last j → x j = 0 := by
    intro j fickle
    obtain ⟨basis, between, outside⟩ := fickle.free
    exact (cycle.stays valid point between).2.support j outside
  obtain ⟨here, between, basic⟩ := fickle.basic
  obtain ⟨there, between', free⟩ := fickle.free
  obtain ⟨leaving, after, onWay, onWay', pivots, member, gone⟩ :=
    between.gives_up (P := (t ∈ ·)) (cycle.same t) basic between' free
  obtain ⟨entering, after', onWay'', _, pivots', outside, come⟩ :=
    between'.gives_up (P := (t ∉ ·)) (not_congr (cycle.same t)) free between (not_not.mpr basic)
  obtain ⟨validLeaving, pointLeaving⟩ := cycle.stays valid point onWay
  obtain ⟨validEntering, pointEntering⟩ := cycle.stays valid point onWay''
  obtain ⟨s, direction, entered, descends, falls, lower⟩ :=
    pivots.leaving_bland validLeaving pointLeaving member gone (zero t fickle)
  obtain ⟨reduced, negative, nonneg, priced⟩ :=
    pivots'.entering_bland validEntering pointEntering outside (not_not.mp come)
  -- By the prices where the highest column enters, the ray costs something or nothing.
  have cost : 0 ≤ program.objective (ray leaving direction s) := by
    rw [priced _ descends.level]
    refine sum_nonneg fun j inRange => ?_
    obtain ⟨column, free⟩ := mem_filter.mp inRange
    have column := mem_range.mp column
    by_cases top : j = t
    · rw [top]
      exact mul_nonneg_of_nonpos_of_nonpos negative.le falls.le
    by_cases new : j = s
    · have fickleEntering : Fickle program first last j :=
        ⟨⟨after, onWay', new ▸ entered⟩, ⟨entering, onWay'', free⟩⟩
      rw [new, ray_entering descends.outside, mul_one, ← new]
      exact nonneg j (lt_of_le_of_ne (highest j fickleEntering) top) column free
    by_cases basic : j ∈ leaving
    · have fickleBasic : Fickle program first last j :=
        ⟨⟨leaving, onWay, basic⟩, ⟨entering, onWay'', free⟩⟩
      have before := lt_of_le_of_ne (highest j fickleBasic) top
      exact mul_nonneg (nonneg j before column free)
        (lower j basic before (zero j fickleBasic))
    · rw [ray_outside basic new, mul_zero]
  exact absurd descends.falls (not_lt.mpr cost)

end LinOpt.Simplex
