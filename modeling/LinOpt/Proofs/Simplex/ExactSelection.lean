import LinOpt.Proofs.Scalar.Places
import LinOpt.Proofs.Simplex.Selection

/-!
# Exact selections of a pivot

With rational numbers both searches find exactly the column and the row that the rules ask for. With
floating-point numbers they do so when no reduced cost is NaN and all entries of the direction are
finite. A value that is NaN counts as zero, and a ratio may overflow to infinity, but it is never
NaN.
-/

namespace LinOpt.Simplex

/-- A step ends at a finite number or, if the division overflows, at infinity. -/
theorem float_limits_number {tolerance : Float} (nonneg : 0 ≤ tolerance)
    {values direction : List Float} (finite : ∀ entry ∈ direction, entry.isFinite = true)
    (limit : Ratio Float) (limits : Limits tolerance values direction limit) :
    Scalar.isNaN limit.ratio = false := by
  obtain ⟨entry, value, first, _, large, ratio⟩ := limits
  have positive : 0 < entry := float_orderLaws.lt_of_le_of_lt nonneg large
  have nonzero : (entry == 0) = false :=
    Bool.eq_false_iff.mpr fun zero => float_zero_not_pos zero positive
  have number : (Scalar.larger value 0).isNaN = false := by
    rw [← isNaN_float]
    unfold Scalar.larger
    split
    · decide
    next other =>
      simp only [Bool.or_eq_true, not_or, Bool.not_eq_true] at other
      exact other.2
  rw [ratio, isNaN_float]
  exact float_isNaN_div number (finite entry (List.mem_of_getElem? first)) nonzero

/-- The entering column and the leaving row are exactly the ones that the rules ask for, with
rational numbers and with floating-point numbers. -/
theorem pivot_selection_exact :
    (∀ (pricing : PricingRule) (tolerance : Rat), 0 ≤ tolerance →
      (∀ costs : List (Nat × Rat), costs.Pairwise (·.1 < ·.1) →
        SelectsEntering pricing tolerance costs) ∧
      ∀ (values direction : List Rat) (basis : List Nat), values.length = direction.length →
        basis.length = direction.length → basis.Nodup →
        SelectsLeaving pricing tolerance values direction basis) ∧
    ∀ (pricing : PricingRule) (tolerance : Float), 0 ≤ tolerance →
      (∀ costs : List (Nat × Float), costs.Pairwise (·.1 < ·.1) →
        (∀ entry ∈ costs, entry.2.isNaN = false) → SelectsEntering pricing tolerance costs) ∧
      ∀ (values direction : List Float) (basis : List Nat), values.length = direction.length →
        basis.length = direction.length → basis.Nodup →
        (∀ entry ∈ direction, entry.isFinite = true) →
        SelectsLeaving pricing tolerance values direction basis := by
  constructor
  case left =>
    intro pricing tolerance _
    constructor
    · intro costs increasing
      exact selectsEntering rat_orderLaws (fun entry _ => isNaN_rat entry.2) increasing
    · intro values direction basis parallel parallel' distinct
      exact selectsLeaving rat_orderLaws (isNaN_rat tolerance) (fun entry _ => isNaN_rat entry)
        (fun limit _ => isNaN_rat limit.ratio) parallel parallel' distinct
  case right =>
    intro pricing tolerance nonneg
    constructor
    · intro costs increasing numbers
      exact selectsEntering float_orderLaws
        (fun entry member => (isNaN_float entry.2).trans (numbers entry member)) increasing
    · intro values direction basis parallel parallel' distinct finite
      -- NaN is not at least zero.
      have safe : Scalar.isNaN tolerance = false :=
        (isNaN_float tolerance).trans (Bool.eq_false_iff.mpr ((float_nonneg_iff _).mp nonneg).2)
      have entries (entry : Float) (member : entry ∈ direction) : Scalar.isNaN entry = false :=
        (isNaN_float entry).trans (float_isNaN_of_isFinite (finite entry member))
      exact selectsLeaving float_orderLaws safe entries (float_limits_number nonneg finite) parallel
        parallel' distinct

/-- The least reduced cost comes twice, and so does the next one. -/
def tiedCosts : List (Nat × Float) := [(0, -1), (2, -3), (3, -5), (5, 1), (6, -5), (8, -3)]

/-- Rows with the ratios 3, 3, none, 2, 2 and 2. -/
def tiedDirection : List Float := [1, 2, -1, 1, 1, 4]

def tiedValues : List Float := [3, 6, 5, 2, 2, 8]

def tiedBasis : List Nat := [7, 3, 9, 8, 1, 5]

theorem pivot_selection_exact_ties :
    Enters .dantzig (0 : Rat) [(1, -1), (3, -4), (4, -4), (6, 2)] 3 ∧
    Leaves .bland (0 : Rat) [2, 4, 1] [1, 2, -1] [7, 3, 5] 1 ∧
    Enters .dantzig 1e-9 tiedCosts 3 ∧ Enters .bland 1e-9 tiedCosts 0 ∧
    Leaves .dantzig 1e-9 tiedValues tiedDirection tiedBasis 3 ∧
    Leaves .bland 1e-9 tiedValues tiedDirection tiedBasis 4 := by
  obtain ⟨rational, float⟩ := pivot_selection_exact
  have nonneg : (0 : Float) ≤ 1e-9 := by decide
  have numbers : ∀ entry ∈ tiedCosts, entry.2.isNaN = false := by decide
  have finite : ∀ entry ∈ tiedDirection, entry.isFinite = true := by decide
  have entering (pricing : PricingRule) : SelectsEntering pricing 1e-9 tiedCosts :=
    (float pricing 1e-9 nonneg).1 tiedCosts (by decide) numbers
  have leaving (pricing : PricingRule) :
      SelectsLeaving pricing 1e-9 tiedValues tiedDirection tiedBasis :=
    (float pricing 1e-9 nonneg).2 tiedValues tiedDirection tiedBasis (by decide) (by decide)
      (by decide) finite
  refine ⟨?_, ?_, ?_, ?_, ?_, ?_⟩
  · exact (((rational .dantzig 0 le_rfl).1 _ (by decide)).some_iff 3).mp (by decide +kernel)
  · exact (((rational .bland 0 le_rfl).2 [2, 4, 1] [1, 2, -1] [7, 3, 5] (by decide)
      (by decide) (by decide)).some_iff 1).mp (by decide +kernel)
  · exact ((entering .dantzig).some_iff 3).mp (by decide)
  · exact ((entering .bland).some_iff 0).mp (by decide)
  · exact ((leaving .dantzig).some_iff 3).mp (by decide +kernel)
  · exact ((leaving .bland).some_iff 4).mp (by decide +kernel)

end LinOpt.Simplex
