import LinOpt.Proofs.Simplex.Values

/-!
# Values that drift below zero

With a positive tolerance the ratio test passes over rows whose entries are small, and a long step
can bring their values below zero. This is the only way in which a run from a feasible basis comes
to negative values: every pivot on the way either keeps the basis feasible or overshoots in a row
that it has passed over. By how much depends on the step; the tolerance is no bound.
-/

namespace LinOpt.Simplex

/-! ### The values after an exchange -/

namespace Program

/-- How much of the entering column the value of a row pays for. -/
noncomputable def stepLength (program : Program Rat) (basis : List Nat) (entering : Nat)
    (row : Fin program.rows.length) : Rat :=
  program.basicValues basis row / program.basicEntries basis entering row

variable {program : Program Rat} {basis : List Nat} {entering : Nat}

/-- After an exchange the entering column has the length of the step for its value, and the other
columns have lost what it takes from them. -/
theorem IsBasis.basicValues_set (valid : program.IsBasis basis) {inverse : List (List Rat)}
    (inverted : Dense.invert (program.basisMatrix basis) = some inverse)
    (descends : program.Descends basis entering
      (Dense.mulVec inverse (Dense.column program.rows entering)))
    {row : Fin program.rows.length} (nonzero : program.basicEntries basis entering row ≠ 0) :
    IsUnit (program.matrix (basis.set row entering)) ∧ ∀ k,
      program.basicValues (basis.set row entering) k =
        if k = row then program.stepLength basis entering row
        else program.basicValues basis k -
          program.stepLength basis entering row * program.basicEntries basis entering k := by
  have distinct := valid.nodup inverted
  have inside (k : Fin program.rows.length) : (k : Nat) < basis.length :=
    valid.length.symm ▸ k.isLt
  have found := valid.getElem?_mulVec inverted entering
  have valid' := valid.set descends.column row
  have nonsingular := valid'.isUnit
    (valid.independent_set inverted descends.column descends.outside (found row) nonzero)
  -- A step along the ray leads from the only point of the old basis to the only one of the new.
  have before := valid.determined (valid.nonsingular inverted)
  have after : program.Determined (basis.set row entering) _ :=
    ⟨descends.support before.support distinct (inside row) (found row) nonzero,
      descends.solves before.solves _⟩
  have values (k : Fin program.rows.length) :=
    before.basicValues_apply valid (valid.nonsingular inverted) k
  refine ⟨nonsingular, fun k => ?_⟩
  rw [after.basicValues_apply valid' nonsingular, stepLength, values row,
    List.getD_eq_getElem basis _ (inside row)]
  by_cases same : k = row
  · subst same
    rw [if_pos rfl, List.getD_eq_getElem _ _ (by simpa using inside k), List.getElem_set_self,
      before.support _ descends.outside, ray_entering descends.outside, zero_add, mul_one]
  · have other : (row : Nat) ≠ k := fun h => same (Fin.ext h.symm)
    obtain ⟨_, entry⟩ := List.getElem?_eq_some_iff.mp (found k)
    rw [if_neg same, List.getD_eq_getElem _ _ (by simpa using inside k),
      List.getElem_set_ne other, ray_basic descends.outside distinct descends.parallel (inside k),
      entry, values k, List.getD_eq_getElem _ _ (inside k), mul_neg, sub_eq_add_neg]

end Program

/-! ### Overshooting -/

/-- A pivot brings a value below zero that it has passed over, for the entering column takes no more
than the tolerance from it. -/
def Overshoots (tolerance : Rat) (program : Program Rat) (basis next : List Nat) : Prop :=
  ∃ (entering : Nat) (row k : Fin program.rows.length), next = basis.set row entering ∧
    tolerance < program.basicEntries basis entering row ∧
    0 < program.basicEntries basis entering k ∧ program.basicEntries basis entering k ≤ tolerance ∧
    program.basicValues basis k <
      program.stepLength basis entering row * program.basicEntries basis entering k

/-- What a pivot from a feasible basis does to the values: the step is no longer than the ratio of
any row whose entry is above the tolerance. -/
structure Exchange (tolerance : Rat) (program : Program Rat) (basis : List Nat) (entering : Nat)
    (row : Fin program.rows.length) : Prop where
  outside : entering ∉ basis
  isBasis : program.IsBasis (basis.set row entering)
  nonsingular : IsUnit (program.matrix (basis.set row entering))
  large : tolerance < program.basicEntries basis entering row
  forth : 0 ≤ program.stepLength basis entering row
  least : ∀ k, tolerance < program.basicEntries basis entering k →
    program.stepLength basis entering row * program.basicEntries basis entering k ≤
      program.basicValues basis k
  values : ∀ k, program.basicValues (basis.set row entering) k =
    if k = row then program.stepLength basis entering row
    else program.basicValues basis k -
      program.stepLength basis entering row * program.basicEntries basis entering k

variable {program : Program Rat} {start basis next : List Nat} {pricing : PricingRule}
  {tolerance : Rat}

theorem Program.FeasibleBasis.exchange (feasible : program.FeasibleBasis basis)
    (nonneg : 0 ≤ tolerance) (pivots : Pivots pricing tolerance program basis next) :
    ∃ (entering : Nat) (row : Fin program.rows.length), next = basis.set row entering ∧
      Exchange tolerance program basis entering row := by
  have valid := feasible.toIsBasis
  obtain ⟨iterate, entering, row, evaluated, decision, rfl⟩ := pivots
  obtain ⟨inverse, inverted, computed, reduced, choice⟩ := iterate_some evaluated
  rw [decision, reduced] at choice
  obtain ⟨enters, leaves⟩ := choice
  have descends := Program.descends nonneg valid inverted enters
  have found := valid.getElem?_mulVec inverted entering
  have values := valid.getElem?_values evaluated
  obtain ⟨entry, value, first, second, large, least⟩ := findLeaving_some leaves
  -- The ratio test stops in a row of the program, with the entry and the value that it has there.
  obtain ⟨inside, -⟩ := List.getElem?_eq_some_iff.mp second
  rw [(iterate_shape valid evaluated).1, valid.length] at inside
  obtain rfl : program.basicValues basis ⟨row, inside⟩ = value :=
    Option.some.inj ((values ⟨row, inside⟩).symm.trans second)
  obtain rfl : program.basicEntries basis entering ⟨row, inside⟩ = entry :=
    Option.some.inj ((found ⟨row, inside⟩).symm.trans first)
  have positive := nonneg.trans_lt large
  obtain ⟨nonsingular, after⟩ := valid.basicValues_set inverted descends positive.ne'
  exact ⟨entering, ⟨row, inside⟩, rfl, {
    outside := descends.outside
    isBasis := valid.set descends.column row
    nonsingular := nonsingular
    large := large
    forth := div_nonneg (feasible.nonneg _) positive.le
    least := by
      intro k limits
      have ratio := least k _ _ (found k) (values k) limits
      rw [larger_zero (feasible.nonneg _), larger_zero (feasible.nonneg _)] at ratio
      exact (le_div_iff₀ (nonneg.trans_lt limits)).mp ratio
    values := after }⟩

/-- A pivot from a feasible basis leads to a feasible basis or overshoots. -/
theorem Program.FeasibleBasis.pivot_or_overshoots (feasible : program.FeasibleBasis basis)
    (nonneg : 0 ≤ tolerance) (pivots : Pivots pricing tolerance program basis next) :
    program.FeasibleBasis next ∨ Overshoots tolerance program basis next := by
  obtain ⟨entering, row, rfl, exchange⟩ := feasible.exchange nonneg pivots
  by_cases short : ∃ k, 0 < program.basicEntries basis entering k ∧
      program.basicEntries basis entering k ≤ tolerance ∧
      program.basicValues basis k <
        program.stepLength basis entering row * program.basicEntries basis entering k
  · obtain ⟨k, overshot⟩ := short
    exact .inr ⟨entering, row, k, rfl, exchange.large, overshot⟩
  · refine .inl ⟨exchange.isBasis, exchange.nonsingular, fun k => ?_⟩
    rw [exchange.values]
    split
    · exact exchange.forth
    rw [sub_nonneg]
    -- A row limits the step, or it has been passed over; then its value grows or falls.
    rcases lt_or_ge tolerance (program.basicEntries basis entering k) with limits | small
    · exact exchange.least k limits
    rcases le_or_gt (program.basicEntries basis entering k) 0 with grows | falls
    · exact (mul_nonpos_of_nonneg_of_nonpos exchange.forth grows).trans (feasible.nonneg k)
    · exact not_lt.mp fun below => short ⟨k, falls, small, below⟩

/-- No value falls further below zero than the tolerance times the value of the column that has
entered. -/
theorem Program.FeasibleBasis.pivot_bound (feasible : program.FeasibleBasis basis)
    (nonneg : 0 ≤ tolerance) (pivots : Pivots pricing tolerance program basis next) :
    ∃ row : Fin program.rows.length, next.getD row 0 ∉ basis ∧ 0 ≤ program.basicValues next row ∧
      ∀ k, -(tolerance * program.basicValues next row) ≤ program.basicValues next k := by
  obtain ⟨entering, row, rfl, exchange⟩ := feasible.exchange nonneg pivots
  have inside : (row : Nat) < (basis.set row entering).length := by
    rw [List.length_set, feasible.length]
    exact row.isLt
  have own : program.basicValues (basis.set row entering) row =
      program.stepLength basis entering row := by rw [exchange.values, if_pos rfl]
  refine ⟨row, ?_, exchange.forth.trans_eq own.symm, fun k => ?_⟩
  · rw [List.getD_eq_getElem _ _ inside, List.getElem_set_self]
    exact exchange.outside
  · have below : -(tolerance * program.stepLength basis entering row) ≤ 0 :=
      neg_nonpos.mpr (mul_nonneg nonneg exchange.forth)
    rw [own, exchange.values]
    split
    · exact below.trans exchange.forth
    rcases lt_or_ge tolerance (program.basicEntries basis entering k) with limits | small
    · exact below.trans (sub_nonneg.mpr (exchange.least k limits))
    · -- A row that was passed over loses no more than the tolerance on each unit of the step.
      have lost := mul_le_mul_of_nonneg_left small exchange.forth
      have value := feasible.nonneg k
      linarith

/-- On the way between two bases, a pivot from a feasible basis overshoots. -/
def Overshot (pricing : PricingRule) (tolerance : Rat) (program : Program Rat)
    (start basis : List Nat) : Prop :=
  ∃ before after, Visited pricing tolerance program start before ∧ program.FeasibleBasis before ∧
    Pivots pricing tolerance program before after ∧ Overshoots tolerance program before after ∧
    Visited pricing tolerance program after basis

/-- From a feasible start a run comes to feasible bases as long as it does not overshoot. -/
theorem Visited.feasible_or_overshot (visited : Visited pricing tolerance program start basis)
    (nonneg : 0 ≤ tolerance) (feasible : program.FeasibleBasis start) :
    program.FeasibleBasis basis ∨ Overshot pricing tolerance program start basis := by
  induction visited with
  | refl => exact .inl feasible
  | tail visited pivots ih =>
    rcases ih with here | ⟨before, after, first, valid, moved, overshoots, rest⟩
    · rcases here.pivot_or_overshoots nonneg pivots with kept | overshoots
      · exact .inl kept
      · exact .inr ⟨_, _, visited, here, pivots, overshoots, .refl⟩
    · exact .inr ⟨before, after, first, valid, moved, overshoots, rest.tail pivots⟩

end LinOpt.Simplex
