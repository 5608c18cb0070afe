import Mathlib.Data.List.Basic
import LinOpt.Simplex.Iterate

/-!
# Choices of an iteration

Whatever the numbers are, the entering column is one of the candidates, and the ratio test is a
selection from the list of rows with an entry above the tolerance.
-/

namespace LinOpt.Simplex

/-! ### Selections from a list -/

section Choose

variable {β : Type} {choose : β → β → β} {before R : β → β → Prop} {first : β} {rest : List β}

/-- A selection that keeps one of two candidates at each step ends with one of them all. -/
theorem foldl_choose_mem (chosen : ∀ best next, choose best next = best ∨ choose best next = next)
    (first : β) (rest : List β) : rest.foldl choose first ∈ first :: rest := by
  induction rest generalizing first with
  | nil => simp
  | cons next rest ih =>
    rw [List.foldl_cons]
    rcases List.mem_cons.mp (ih (choose first next)) with same | later
    · rw [same]
      rcases chosen first next with same | same <;> simp [same]
    · simp [later]

/-- If each step keeps a candidate that is as good as both, the last one is as good as them all. The
steps meet the candidates in the order of the list. -/
theorem foldl_choose_least (chosen : ∀ best next, choose best next = best ∨ choose best next = next)
    (trans : ∀ {x y z}, R x y → R y z → R x z) (refl : ∀ x ∈ first :: rest, R x x)
    (step : ∀ best ∈ first :: rest, ∀ next ∈ first :: rest, before best next →
      R (choose best next) best ∧ R (choose best next) next)
    (sorted : (first :: rest).Pairwise before) :
    ∀ x ∈ first :: rest, R (rest.foldl choose first) x := by
  induction rest generalizing first with
  | nil =>
    intro x member
    rw [List.mem_singleton.mp member]
    exact refl first List.mem_cons_self
  | cons next rest ih =>
    obtain ⟨ahead, sortedRest⟩ := List.pairwise_cons.mp sorted
    obtain ⟨aheadNext, sortedTail⟩ := List.pairwise_cons.mp sortedRest
    obtain ⟨asFirst, asNext⟩ := step first (by simp) next (by simp) (ahead next (by simp))
    -- The candidate that is kept stands before the rest, whichever of the two it is.
    have inside : ∀ x ∈ choose first next :: rest, x ∈ first :: next :: rest := by
      rcases chosen first next with same | same <;> rw [same] <;> simp +contextual
    have aheadKept : ∀ x ∈ rest, before (choose first next) x := by
      intro x later
      rcases chosen first next with same | same <;> rw [same]
      · exact ahead x (by simp [later])
      · exact aheadNext x later
    have below := ih (fun x member => refl x (inside x member))
      (fun best member next member' => step best (inside best member) next (inside next member'))
      (List.pairwise_cons.mpr ⟨aheadKept, sortedTail⟩)
    intro x member
    rw [List.foldl_cons]
    rcases List.mem_cons.mp member with rfl | member
    · exact trans (below _ (by simp)) asFirst
    · rcases List.mem_cons.mp member with rfl | member
      · exact trans (below _ (by simp)) asNext
      · exact below x (by simp [member])

end Choose

variable {α : Type} [Scalar α]

/-! ### The entering column -/

private theorem foldl_least (candidates : List (Nat × α)) (best : Option (Nat × α)) :
    let least := candidates.foldl
      (fun best candidate => match best with
        | some least => if least.2 ≤ candidate.2 then some least else some candidate
        | none => some candidate) best
    (least = none → best = none ∧ candidates = []) ∧
      ∀ found, least = some found → best = some found ∨ found ∈ candidates := by
  induction candidates generalizing best with
  | nil => simp
  | cons candidate candidates ih =>
    rw [List.foldl_cons]
    obtain ⟨never, found⟩ := ih _
    refine ⟨fun none => ?_, fun entry returned => ?_⟩
    · -- After one candidate there is always a best one.
      have nothing := (never none).1
      split at nothing
      · split at nothing <;> cases nothing
      · cases nothing
    · rcases found entry returned with start | member
      · split at start
        · split at start
          · exact Or.inl start
          · exact Or.inr (by simp [Option.some.inj start])
        · exact Or.inr (by simp [Option.some.inj start])
      · exact Or.inr (List.mem_cons_of_mem _ member)

theorem findEntering_none {pricing : PricingRule} {tolerance : α} {reducedCosts : List (Nat × α)}
    (returned : findEntering pricing tolerance reducedCosts = none) :
    ∀ entry ∈ reducedCosts, ¬ entry.2 < -tolerance := by
  have empty : reducedCosts.filter (fun entry => decide (entry.2 < -tolerance)) = [] := by
    cases pricing with
    | bland => simpa [findEntering] using returned
    | dantzig =>
      have least := Option.map_eq_none_iff.mp returned
      exact ((foldl_least _ none).1 least).2
  intro entry member negative
  have candidate : entry ∈ reducedCosts.filter (fun entry => decide (entry.2 < -tolerance)) :=
    List.mem_filter.mpr ⟨member, decide_eq_true negative⟩
  rw [empty] at candidate
  cases candidate

theorem findEntering_some {pricing : PricingRule} {tolerance : α} {reducedCosts : List (Nat × α)}
    {entering : Nat} (returned : findEntering pricing tolerance reducedCosts = some entering) :
    ∃ cost, (entering, cost) ∈ reducedCosts ∧ cost < -tolerance := by
  have candidate : ∃ cost, (entering, cost) ∈
      reducedCosts.filter (fun entry => decide (entry.2 < -tolerance)) := by
    cases pricing with
    | bland =>
      obtain ⟨⟨_, cost⟩, first, rfl⟩ := Option.map_eq_some_iff.mp returned
      exact ⟨cost, List.mem_of_mem_head? first⟩
    | dantzig =>
      obtain ⟨⟨_, cost⟩, least, rfl⟩ := Option.map_eq_some_iff.mp returned
      rcases (foldl_least _ none).2 _ least with start | member
      · cases start
      · exact ⟨cost, member⟩
  obtain ⟨cost, member⟩ := candidate
  obtain ⟨listed, negative⟩ := List.mem_filter.mp member
  exact ⟨cost, listed, of_decide_eq_true negative⟩

/-! ### The leaving row -/

/-- The rows that limit a step, with their ratios. -/
def ratios (tolerance : α) (values direction : List α) : List (Ratio α) :=
  (direction.zip values).zipIdx.filterMap fun ((entry, value), row) =>
    if entry ≤ tolerance then none else some ⟨row, Scalar.larger value 0 / entry⟩

/-- The selection from a list of ratios. -/
def bestRatio? (pricing : PricingRule) (basis : List Nat) : List (Ratio α) → Option (Ratio α)
  | [] => none
  | first :: rest => some (rest.foldl (Ratio.better pricing basis) first)

theorem foldl_bestRatio? (pricing : PricingRule) (basis : List Nat) (limits : List (Ratio α)) :
    limits.foldl (fun best next => match best with
      | some least => some (least.better pricing basis next)
      | none => some next) none = bestRatio? pricing basis limits := by
  cases limits with
  | nil => rfl
  | cons first rest =>
    show rest.foldl _ (some first) = some (rest.foldl (Ratio.better pricing basis) first)
    induction rest generalizing first with
    | nil => rfl
    | cons next rest ih =>
      rw [List.foldl_cons, List.foldl_cons]
      exact ih (first.better pricing basis next)

theorem findLeaving_eq (pricing : PricingRule) (tolerance : α) (values direction : List α)
    (basis : List Nat) : findLeaving pricing tolerance values direction basis =
      (bestRatio? pricing basis (ratios tolerance values direction)).map (·.row) := by
  rw [← foldl_bestRatio?, ratios, List.foldl_filterMap, findLeaving]
  congr 2
  funext best ⟨⟨entry, value⟩, row⟩
  by_cases small : entry ≤ tolerance
  · simp [small]
  · cases best <;> simp [small]

theorem mem_ratios {tolerance : α} {values direction : List α} {limit : Ratio α} :
    limit ∈ ratios tolerance values direction ↔
      ∃ entry value, direction[limit.row]? = some entry ∧ values[limit.row]? = some value ∧
        ¬ entry ≤ tolerance ∧ limit.ratio = Scalar.larger value 0 / entry := by
  simp only [ratios, List.mem_filterMap, Prod.exists, List.mk_mem_zipIdx_iff_getElem?]
  constructor
  · rintro ⟨entry, value, row, found, returned⟩
    split at returned
    · cases returned
    next large =>
      cases returned
      obtain ⟨first, second⟩ := List.getElem?_zip_eq_some.mp found
      exact ⟨entry, value, first, second, large, rfl⟩
  · rintro ⟨entry, value, first, second, large, ratio⟩
    refine ⟨entry, value, limit.row, List.getElem?_zip_eq_some.mpr ⟨first, second⟩, ?_⟩
    rw [if_neg large, ← ratio]

theorem bestRatio?_none {pricing : PricingRule} {basis : List Nat} {limits : List (Ratio α)}
    (none : bestRatio? pricing basis limits = none) : limits = [] := by
  cases limits with
  | nil => rfl
  | cons first rest => cases none

theorem better_eq (pricing : PricingRule) (basis : List Nat) (best next : Ratio α) :
    best.better pricing basis next = best ∨ best.better pricing basis next = next := by
  unfold Ratio.better
  split
  · exact Or.inr rfl
  · split
    · exact Or.inr rfl
    · exact Or.inl rfl

theorem bestRatio?_mem {pricing : PricingRule} {basis : List Nat} {limits : List (Ratio α)}
    {best : Ratio α} (returned : bestRatio? pricing basis limits = some best) : best ∈ limits := by
  cases limits with
  | nil => cases returned
  | cons first rest =>
    cases returned
    exact foldl_choose_mem (better_eq pricing basis) first rest

/-- The row that is found limits the step. -/
theorem findLeaving_limits {pricing : PricingRule} {tolerance : α} {values direction : List α}
    {basis : List Nat} {row : Nat}
    (returned : findLeaving pricing tolerance values direction basis = some row) :
    ∃ entry value, direction[row]? = some entry ∧ values[row]? = some value ∧
      ¬ entry ≤ tolerance := by
  rw [findLeaving_eq] at returned
  obtain ⟨best, selected, rfl⟩ := Option.map_eq_some_iff.mp returned
  obtain ⟨entry, value, first, second, large, _⟩ := mem_ratios.mp (bestRatio?_mem selected)
  exact ⟨entry, value, first, second, large⟩

/-- No row limits the step. -/
theorem findLeaving_none {pricing : PricingRule} {tolerance : α} {values direction : List α}
    {basis : List Nat} (parallel : direction.length = values.length)
    (returned : findLeaving pricing tolerance values direction basis = none) :
    ∀ entry ∈ direction, entry ≤ tolerance := by
  rw [findLeaving_eq, Option.map_eq_none_iff] at returned
  have empty := bestRatio?_none returned
  intro entry member
  by_contra large
  obtain ⟨row, small, rfl⟩ := List.getElem_of_mem member
  have inside : row < values.length := parallel.symm ▸ small
  -- A larger entry would be among the ratios.
  have limit : (⟨row, Scalar.larger values[row] 0 / direction[row]⟩ :
      Ratio α) ∈ ratios tolerance values direction :=
    mem_ratios.mpr ⟨_, _, List.getElem?_eq_getElem small,
      List.getElem?_eq_getElem inside, large, rfl⟩
  rw [empty] at limit
  cases limit

/-! ### The order of the columns -/

theorem reducedCosts_increasing (program : Program α) (basis : List Nat) (prices : List α) :
    (reducedCosts program basis prices).Pairwise (·.1 < ·.1) := by
  rw [reducedCosts, List.pairwise_map]
  exact List.pairwise_lt_range.filter _

/-- No column before the entering one has a reduced cost below `-tolerance`. -/
theorem findEntering_bland {tolerance : α} {reducedCosts : List (Nat × α)}
    (increasing : reducedCosts.Pairwise (·.1 < ·.1)) {entering : Nat}
    (returned : findEntering .bland tolerance reducedCosts = some entering) :
    ∀ entry ∈ reducedCosts, entry.1 < entering → ¬ entry.2 < -tolerance := by
  obtain ⟨first, head, rfl⟩ := Option.map_eq_some_iff.mp returned
  obtain ⟨rest, candidates⟩ := List.head?_eq_some_iff.mp head
  have sorted := increasing.filter fun entry => decide (entry.2 < -tolerance)
  rw [candidates] at sorted
  intro entry member before negative
  -- Every candidate is the first one or stands after it.
  have candidate : entry ∈ reducedCosts.filter (fun entry => decide (entry.2 < -tolerance)) :=
    List.mem_filter.mpr ⟨member, decide_eq_true negative⟩
  rw [candidates] at candidate
  rcases List.mem_cons.mp candidate with rfl | later
  · exact Nat.lt_irrefl _ before
  · exact Nat.lt_asymm before ((List.pairwise_cons.mp sorted).1 entry later)

end LinOpt.Simplex
