import Mathlib.Data.List.GetD
import Mathlib.Data.List.Nodup
import LinOpt.Proofs.Scalar.Order
import LinOpt.Proofs.Simplex.Choice

/-!
# The selection of a pivot

Both searches of an iteration go once through a list and keep the best candidate that they have met.
Candidates come in the order of their columns or rows, and each of them has a number and a place:
the entering column is selected by reduced cost and column, the leaving row by ratio and by row or
basic column. What is kept precedes every candidate that has been met, so in the end it is the one
candidate that precedes them all.

This takes no more than a total order of the numbers involved, so it is stated for all scalars with
one, as long as neither the data nor the ratios are NaN. The ratio test of rational numbers is the
case that steps in exact arithmetic rest on.
-/

namespace LinOpt

/-- What decides between rows of the same ratio: the row or, under Bland's rule, its basic
column. -/
def PricingRule.rank (pricing : PricingRule) (basis : List Nat) (row : Nat) : Nat :=
  match pricing with
  | .dantzig => row
  | .bland => basis.getD row 0

theorem PricingRule.rank_inj {pricing : PricingRule} {basis : List Nat} (distinct : basis.Nodup)
    {row other : Nat} (inside : row < basis.length) (inside' : other < basis.length)
    (same : pricing.rank basis row = pricing.rank basis other) : row = other := by
  cases pricing with
  | dantzig => exact same
  | bland =>
    rw [rank, rank, List.getD_eq_getElem _ _ inside, List.getD_eq_getElem _ _ inside'] at same
    exact distinct.getElem_inj_iff.mp same

namespace Simplex

variable {α : Type} [Scalar α]

/-- Of two candidates with places, the first one has the lesser number, or the same number and no
later place. -/
def Precedes (first second : Nat × α) : Prop :=
  first.2 ≤ second.2 ∧ ((second.2 == first.2) = true → first.1 ≤ second.1)

/-- The column is the one that enters: under Dantzig's rule the lowest of those with the least
reduced cost, under Bland's rule the lowest of those with a reduced cost below `-tolerance`. -/
def Enters (pricing : PricingRule) (tolerance : α) (costs : List (Nat × α)) (column : Nat) : Prop :=
  ∃ cost, (column, cost) ∈ costs ∧ cost < -tolerance ∧
    match pricing with
    | .dantzig => ∀ other ∈ costs, Precedes (column, cost) other
    | .bland => ∀ other ∈ costs, other.2 < -tolerance → column ≤ other.1

/-- The row limits a step along `direction`: its entry is above the tolerance, and its ratio is that
of its value, at least zero, to this entry. -/
def Limits (tolerance : α) (values direction : List α) (limit : Ratio α) : Prop :=
  ∃ entry value, direction[limit.row]? = some entry ∧ values[limit.row]? = some value ∧
    tolerance < entry ∧ limit.ratio = Scalar.larger value 0 / entry

/-- The ratio with the place of its row. -/
def Ratio.ranked (pricing : PricingRule) (basis : List Nat) (limit : Ratio α) : Nat × α :=
  (pricing.rank basis limit.row, limit.ratio)

/-- The row is the one that leaves: of the rows with the least ratio the lowest or, under Bland's
rule, the one with the lowest basic column. -/
def Leaves (pricing : PricingRule) (tolerance : α) (values direction : List α) (basis : List Nat)
    (row : Nat) : Prop :=
  ∃ limit : Ratio α, limit.row = row ∧ Limits tolerance values direction limit ∧
    ∀ other, Limits tolerance values direction other →
      Precedes (limit.ranked pricing basis) (other.ranked pricing basis)

/-- The search finds the entering column, and nothing only if no reduced cost is negative. -/
structure SelectsEntering (pricing : PricingRule) (tolerance : α) (costs : List (Nat × α)) :
    Prop where
  none_iff : findEntering pricing tolerance costs = none ↔ ∀ entry ∈ costs, ¬ entry.2 < -tolerance
  some_iff (column : Nat) :
    findEntering pricing tolerance costs = some column ↔ Enters pricing tolerance costs column

/-- The search finds the leaving row, and nothing only if no entry is positive. -/
structure SelectsLeaving (pricing : PricingRule) (tolerance : α) (values direction : List α)
    (basis : List Nat) : Prop where
  none_iff : findLeaving pricing tolerance values direction basis = none ↔
    ∀ entry ∈ direction, entry ≤ tolerance
  some_iff (row : Nat) : findLeaving pricing tolerance values direction basis = some row ↔
    Leaves pricing tolerance values direction basis row

theorem Limits.row_lt {tolerance : α} {values direction : List α} {limit : Ratio α}
    (limits : Limits tolerance values direction limit) : limit.row < direction.length := by
  obtain ⟨_, _, first, _⟩ := limits
  exact (List.getElem?_eq_some_iff.mp first).1

/-! ### Candidates -/

section Precedes

variable (laws : Scalar.OrderLaws α) {first second third : Nat × α}

include laws

theorem Precedes.refl (number : Scalar.isNaN first.2 = false) : Precedes first first :=
  ⟨laws.le_refl number, fun _ => le_rfl⟩

theorem Precedes.of_lt (less : first.2 < second.2) : Precedes first second := by
  obtain ⟨le, notLe⟩ := laws.lt_iff.mp less
  exact ⟨le, fun same => absurd (laws.beq_iff.mp same).1 notLe⟩

theorem Precedes.trans (one : Precedes first second) (two : Precedes second third) :
    Precedes first third := by
  obtain ⟨le, place⟩ := one
  obtain ⟨le', place'⟩ := two
  refine ⟨laws.le_trans le le', fun same => ?_⟩
  -- The number in the middle is the same as the ones at the ends.
  have back := (laws.beq_iff.mp same).1
  exact (place (laws.beq_iff.mpr ⟨laws.le_trans le' back, le⟩)).trans
    (place' (laws.beq_iff.mpr ⟨laws.le_trans back le, le'⟩))

theorem Precedes.place_eq (one : Precedes first second) (two : Precedes second first) :
    first.1 = second.1 :=
  le_antisymm (one.2 (laws.beq_iff.mpr ⟨two.1, one.1⟩)) (two.2 (laws.beq_iff.mpr ⟨one.1, two.1⟩))

end Precedes

/-! ### The entering column -/

/-- The cheaper one of two columns, the first one in a tie. -/
def cheaper (best next : Nat × α) : Nat × α :=
  if best.2 ≤ next.2 then best else next

theorem cheaper_eq (best next : Nat × α) : cheaper best next = best ∨ cheaper best next = next := by
  unfold cheaper
  split
  · exact Or.inl rfl
  · exact Or.inr rfl

theorem findEntering_dantzig {tolerance : α} {costs rest : List (Nat × α)} {first : Nat × α}
    (candidates : costs.filter (fun entry => decide (entry.2 < -tolerance)) = first :: rest) :
    findEntering .dantzig tolerance costs = some (rest.foldl cheaper first).1 := by
  unfold findEntering
  simp only [candidates, List.foldl_cons]
  clear candidates
  induction rest generalizing first with
  | nil => rfl
  | cons next rest ih =>
    have step : (if first.2 ≤ next.2 then some first else some next) = some (cheaper first next) :=
      (apply_ite some _ _ _).symm
    rw [List.foldl_cons, List.foldl_cons, ← ih, ← step]

section Entering

variable {pricing : PricingRule} {tolerance : α} {costs : List (Nat × α)} {column other : Nat}

theorem findEntering_eq_none_iff :
    findEntering pricing tolerance costs = none ↔ ∀ entry ∈ costs, ¬ entry.2 < -tolerance := by
  constructor
  · exact findEntering_none
  · intro nonnegative
    cases found : findEntering pricing tolerance costs with
    | none => rfl
    | some column =>
      obtain ⟨cost, member, negative⟩ := findEntering_some found
      exact absurd negative (nonnegative _ member)

variable (laws : Scalar.OrderLaws α)

include laws

theorem Enters.unique (one : Enters pricing tolerance costs column)
    (two : Enters pricing tolerance costs other) : column = other := by
  obtain ⟨cost, member, negative, least⟩ := one
  obtain ⟨cost', member', negative', least'⟩ := two
  cases pricing with
  | dantzig => exact (least _ member').place_eq laws (least' _ member)
  | bland => exact le_antisymm (least _ member' negative') (least' _ member negative)

variable (numbers : ∀ entry ∈ costs, Scalar.isNaN entry.2 = false)

include numbers

theorem cheaper_precedes {best next : Nat × α} (before : best.1 < next.1) (member : best ∈ costs)
    (member' : next ∈ costs) :
    Precedes (cheaper best next) best ∧ Precedes (cheaper best next) next := by
  have number := numbers best member
  have number' := numbers next member'
  unfold cheaper
  split
  next le => exact ⟨.refl laws number, le, fun _ => before.le⟩
  next notLe => exact ⟨.of_lt laws ((laws.not_le number number').mp notLe), .refl laws number'⟩

variable (increasing : costs.Pairwise (·.1 < ·.1))

include increasing

/-- Dantzig's rule goes through the columns that may enter and keeps the one that precedes them. -/
theorem findEntering_dantzig_precedes
    (returned : findEntering .dantzig tolerance costs = some column) :
    ∃ cost, (column, cost) ∈ costs ∧ cost < -tolerance ∧
      ∀ other ∈ costs, other.2 < -tolerance → Precedes (column, cost) other := by
  have sorted := increasing.filter fun entry => decide (entry.2 < -tolerance)
  have candidate (entry : Nat × α) :
      entry ∈ costs.filter (fun entry => decide (entry.2 < -tolerance)) ↔
        entry ∈ costs ∧ entry.2 < -tolerance := by
    rw [List.mem_filter, decide_eq_true_eq]
  cases candidates : costs.filter (fun entry => decide (entry.2 < -tolerance)) with
  | nil => simp [findEntering, candidates] at returned
  | cons first rest =>
    rw [candidates] at sorted candidate
    rw [findEntering_dantzig candidates, Option.some.injEq] at returned
    subst returned
    obtain ⟨member, negative⟩ := (candidate _).mp (foldl_choose_mem cheaper_eq first rest)
    refine ⟨_, member, negative, fun other member' negative' => ?_⟩
    exact foldl_choose_least (R := Precedes) cheaper_eq (Precedes.trans laws)
      (fun entry member => .refl laws (numbers entry ((candidate entry).mp member).1))
      (fun best member next member' before => cheaper_precedes laws numbers before
        ((candidate best).mp member).1 ((candidate next).mp member').1)
      sorted other ((candidate other).mpr ⟨member', negative'⟩)

theorem enters_of_findEntering (returned : findEntering pricing tolerance costs = some column) :
    Enters pricing tolerance costs column := by
  cases pricing with
  | bland =>
    obtain ⟨cost, member, negative⟩ := findEntering_some returned
    refine ⟨cost, member, negative, fun other member' negative' => not_lt.mp fun before => ?_⟩
    exact findEntering_bland increasing returned other member' before negative'
  | dantzig =>
    obtain ⟨cost, member, negative, least⟩ :=
      findEntering_dantzig_precedes laws numbers increasing returned
    refine ⟨cost, member, negative, fun other member' => ?_⟩
    by_cases negative' : other.2 < -tolerance
    · exact least other member' negative'
    · -- A column that may not enter costs more than one that may.
      have number := numbers other member'
      have number' := numbers _ member
      refine .of_lt laws ((laws.not_le number number').mp fun le => negative' ?_)
      exact laws.lt_of_le_of_lt le negative

theorem selectsEntering : SelectsEntering pricing tolerance costs where
  none_iff := findEntering_eq_none_iff
  some_iff column := by
    constructor
    · exact enters_of_findEntering laws numbers increasing
    · intro enters
      have ⟨cost, member, negative, _⟩ := enters
      cases found : findEntering pricing tolerance costs with
      | none => exact absurd negative (findEntering_none found _ member)
      | some other =>
        have enters' := enters_of_findEntering laws numbers increasing found
        rw [enters'.unique laws enters]

end Entering

/-! ### The leaving row -/

/-- The rows that limit a step are met from the first to the last. -/
theorem ratios_increasing (tolerance : α) (values direction : List α) :
    (ratios tolerance values direction).Pairwise (·.row < ·.row) := by
  have rows : (direction.zip values).zipIdx.Pairwise (·.2 < ·.2) := by
    rw [← List.pairwise_map, List.zipIdx_map_snd]
    exact List.pairwise_lt_range'
  refine rows.filterMap _ ?_
  rintro ⟨⟨entry, value⟩, row⟩ ⟨⟨entry', value'⟩, row'⟩ before limit found limit' found'
  dsimp only at found found'
  split at found
  · cases found
  · split at found'
    · cases found'
    · cases found
      cases found'
      exact before

section Leaving

variable {pricing : PricingRule} {tolerance : α} {values direction : List α} {basis : List Nat}
  {row other : Nat}

theorem findLeaving_eq_none_iff (parallel : direction.length = values.length) :
    findLeaving pricing tolerance values direction basis = none ↔
      ∀ entry ∈ direction, entry ≤ tolerance := by
  constructor
  · exact findLeaving_none parallel
  · intro small
    cases found : findLeaving pricing tolerance values direction basis with
    | none => rfl
    | some row =>
      obtain ⟨entry, _, first, _, large⟩ := findLeaving_limits found
      exact absurd (small entry (List.mem_of_getElem? first)) large

variable (laws : Scalar.OrderLaws α)

include laws

theorem Leaves.unique (parallel : basis.length = direction.length) (distinct : basis.Nodup)
    (one : Leaves pricing tolerance values direction basis row)
    (two : Leaves pricing tolerance values direction basis other) : row = other := by
  obtain ⟨limit, rfl, limits, least⟩ := one
  obtain ⟨limit', rfl, limits', least'⟩ := two
  have inside : limit.row < basis.length := limits.row_lt.trans_eq parallel.symm
  have inside' : limit'.row < basis.length := limits'.row_lt.trans_eq parallel.symm
  exact PricingRule.rank_inj distinct inside inside'
    ((least _ limits').place_eq laws (least' _ limits))

theorem better_precedes (pricing : PricingRule) (basis : List Nat) {best next : Ratio α}
    (number : Scalar.isNaN best.ratio = false) (number' : Scalar.isNaN next.ratio = false)
    (before : best.row < next.row) :
    Precedes ((best.better pricing basis next).ranked pricing basis) (best.ranked pricing basis) ∧
      Precedes ((best.better pricing basis next).ranked pricing basis)
        (next.ranked pricing basis) := by
  unfold Ratio.better
  split
  next less => exact ⟨.of_lt laws less, .refl laws number'⟩
  next notLess =>
    have le := laws.le_of_not_lt number number' notLess
    split
    next tie =>
      simp only [Bool.and_eq_true, beq_iff_eq, decide_eq_true_eq] at tie
      obtain ⟨⟨same, rfl⟩, low⟩ := tie
      exact ⟨⟨(laws.beq_iff.mp same).1, fun _ => low.le⟩, .refl laws number'⟩
    next noTie =>
      refine ⟨.refl laws number, le, fun same => ?_⟩
      cases pricing with
      | dantzig => exact before.le
      | bland =>
        simp only [Bool.and_eq_true, beq_iff_eq, decide_eq_true_eq, not_and, not_lt] at noTie
        exact noTie ⟨same, trivial⟩

variable (threshold : Scalar.isNaN tolerance = false)
  (entries : ∀ entry ∈ direction, Scalar.isNaN entry = false)

include threshold entries

theorem mem_ratios_iff_limits {limit : Ratio α} :
    limit ∈ ratios tolerance values direction ↔ Limits tolerance values direction limit := by
  rw [mem_ratios]
  constructor
  · rintro ⟨entry, value, first, second, large, ratio⟩
    have number := entries entry (List.mem_of_getElem? first)
    exact ⟨entry, value, first, second, (laws.not_le number threshold).mp large, ratio⟩
  · rintro ⟨entry, value, first, second, large, ratio⟩
    exact ⟨entry, value, first, second, (laws.lt_iff.mp large).2, ratio⟩

variable (numbers : ∀ limit, Limits tolerance values direction limit →
  Scalar.isNaN limit.ratio = false)

include numbers

theorem leaves_of_findLeaving
    (returned : findLeaving pricing tolerance values direction basis = some row) :
    Leaves pricing tolerance values direction basis row := by
  have limits (limit : Ratio α) : limit ∈ ratios tolerance values direction ↔
      Limits tolerance values direction limit := mem_ratios_iff_limits laws threshold entries
  have sorted := ratios_increasing tolerance values direction
  rw [findLeaving_eq] at returned
  obtain ⟨best, selected, rfl⟩ := Option.map_eq_some_iff.mp returned
  refine ⟨best, rfl, (limits best).mp (bestRatio?_mem selected), fun other limit => ?_⟩
  have member := (limits other).mpr limit
  cases listed : ratios tolerance values direction with
  | nil => simp [listed] at member
  | cons first rest =>
    rw [listed] at selected member sorted limits
    cases selected
    exact foldl_choose_least
      (R := fun limit other => Precedes (limit.ranked pricing basis) (other.ranked pricing basis))
      (better_eq pricing basis) (Precedes.trans laws)
      (fun limit member => .refl laws (numbers limit ((limits limit).mp member)))
      (fun best member next member' before => better_precedes laws pricing basis
        (numbers best ((limits best).mp member)) (numbers next ((limits next).mp member')) before)
      sorted other member

variable (parallel : values.length = direction.length)
  (parallel' : basis.length = direction.length) (distinct : basis.Nodup)

include parallel parallel' distinct

theorem selectsLeaving : SelectsLeaving pricing tolerance values direction basis where
  none_iff := findLeaving_eq_none_iff parallel.symm
  some_iff row := by
    constructor
    · exact leaves_of_findLeaving laws threshold entries numbers
    · intro leaves
      have ⟨_, _, ⟨entry, _, first, _, large, _⟩, _⟩ := leaves
      cases found : findLeaving pricing tolerance values direction basis with
      | none =>
        have small := findLeaving_none parallel.symm found entry (List.mem_of_getElem? first)
        exact absurd small (laws.lt_iff.mp large).2
      | some other =>
        have leaves' := leaves_of_findLeaving laws threshold entries numbers found
        rw [leaves'.unique laws parallel' distinct leaves]

end Leaving

/-! ### Rational numbers -/

section Rational

variable {pricing : PricingRule} {tolerance : Rat} {values direction : List Rat} {basis : List Nat}
  {row : Nat}

theorem leaves_of_findLeaving_rat
    (returned : findLeaving pricing tolerance values direction basis = some row) :
    Leaves pricing tolerance values direction basis row :=
  leaves_of_findLeaving rat_orderLaws (isNaN_rat tolerance) (fun entry _ => isNaN_rat entry)
    (fun limit _ => isNaN_rat limit.ratio) returned

/-- The row that is found limits the step, and no row limits it further. -/
theorem findLeaving_some
    (returned : findLeaving pricing tolerance values direction basis = some row) :
    ∃ entry value, direction[row]? = some entry ∧ values[row]? = some value ∧ tolerance < entry ∧
      ∀ (k : Nat) (entry' value' : Rat), direction[k]? = some entry' → values[k]? = some value' →
        tolerance < entry' → Scalar.larger value 0 / entry ≤ Scalar.larger value' 0 / entry' := by
  obtain ⟨limit, rfl, ⟨entry, value, first, second, large, ratio⟩, least⟩ :=
    leaves_of_findLeaving_rat returned
  refine ⟨entry, value, first, second, large, ?_⟩
  intro k entry' value' first' second' large'
  rw [← ratio]
  exact (least ⟨k, _⟩ ⟨entry', value', first', second', large', rfl⟩).1

/-- Of the rows with the least ratio, the one with the lowest basic column leaves. -/
theorem findLeaving_bland
    (returned : findLeaving .bland tolerance values direction basis = some row) :
    ∃ entry value, direction[row]? = some entry ∧ values[row]? = some value ∧ tolerance < entry ∧
      ∀ (k : Nat) (entry' value' : Rat), direction[k]? = some entry' → values[k]? = some value' →
        tolerance < entry' → Scalar.larger value' 0 / entry' = Scalar.larger value 0 / entry →
          basis.getD row 0 ≤ basis.getD k 0 := by
  obtain ⟨limit, rfl, ⟨entry, value, first, second, large, ratio⟩, least⟩ :=
    leaves_of_findLeaving_rat returned
  refine ⟨entry, value, first, second, large, ?_⟩
  intro k entry' value' first' second' large' tie
  rw [← ratio] at tie
  exact (least ⟨k, _⟩ ⟨entry', value', first', second', large', rfl⟩).2 (beq_iff_eq.mpr tie)

end Rational

end Simplex

end LinOpt
