import Mathlib.Order.Bounds.Defs
import LinOpt.Proofs.Simplex.Values

/-!
# Feasible runs with a falling objective

From a feasible basis a run in exact arithmetic only visits feasible bases, and its objective never
rises. A pivot goes as far as the least ratio of the rows that limit it, and lowers the objective
for each unit of this way; so only a pivot on a ratio of zero keeps the objective.
-/

namespace LinOpt.Simplex

namespace Program

/-- The least ratio of a basic value to what each unit of the column takes from it. -/
def MinimumRatio (program : Program Rat) (basis : List Nat) (entering : Nat) (ratio : Rat) : Prop :=
  IsLeast {limit | ∃ k, 0 < program.basicEntries basis entering k ∧
    limit = program.basicValues basis k / program.basicEntries basis entering k} ratio

variable {program : Program Rat} {basis : List Nat} {x : Nat → Rat} {pricing : PricingRule}

/-- The ratio test finds the minimum ratio, whichever of several rows it takes. -/
theorem BasicPoint.minimumRatio (point : program.BasicPoint basis x)
    (valid : program.IsBasis basis) {inverse : List (List Rat)}
    (inverted : Dense.invert (program.basisMatrix basis) = some inverse) {entering row : Nat}
    (leaves : findLeaving pricing 0 (basis.map x)
      (Dense.mulVec inverse (Dense.column program.rows entering)) basis = some row)
    (inside : row < basis.length) {entry : Rat}
    (found : (Dense.mulVec inverse (Dense.column program.rows entering))[row]? = some entry) :
    program.MinimumRatio basis entering (x basis[row] / entry) := by
  have values := point.determined.basicValues_apply valid (valid.nonsingular inverted)
  have entries := valid.basicEntries_apply inverted entering
  have parallel := valid.length_mulVec inverted (Dense.column program.rows entering)
  obtain ⟨_, value, first, second, positive, least⟩ := findLeaving_some leaves
  obtain rfl := Option.some.inj (first.symm.trans found)
  obtain ⟨_, rfl⟩ := List.getElem?_eq_some_iff.mp second
  -- The test compares values cut off at zero, which those of a feasible basis are not.
  rw [List.getElem_map, larger_zero (point.nonneg _)] at least
  constructor
  · refine ⟨⟨row, valid.length ▸ inside⟩, ?_, ?_⟩
    · rw [entries, List.getD, found]
      exact positive
    · rw [entries, values]
      simp [List.getD, found, inside]
  · rintro _ ⟨k, limits, rfl⟩
    have small : (k : Nat) < basis.length := valid.length.symm ▸ k.isLt
    have small' := small.trans_eq parallel.symm
    rw [entries, List.getD_eq_getElem _ _ small'] at limits ⊢
    rw [values, List.getD_eq_getElem _ _ small]
    have ratio := least k _ (x basis[(k : Nat)]) (List.getElem?_eq_getElem small')
      (by simp [small]) limits
    rwa [larger_zero (point.nonneg _)] at ratio

/-- A pivot leads from one feasible basis to the next, and lowers the objective on its way. -/
theorem FeasibleBasis.pivot (feasible : program.FeasibleBasis basis) {iterate : Iterate Rat}
    (evaluated : Simplex.iterate pricing 0 program basis = some iterate) {entering row : Nat}
    (pivots : iterate.decision = .pivot entering row) :
    program.FeasibleBasis (basis.set row entering) ∧ ∃ ratio slope, 0 ≤ ratio ∧ slope < 0 ∧
      program.MinimumRatio basis entering ratio ∧
      program.basicObjective (basis.set row entering) =
        program.basicObjective basis + ratio * slope := by
  have valid := feasible.toIsBasis
  obtain ⟨x, point⟩ := feasible.exists_point
  obtain ⟨inverse, inverted, values, reduced, choice⟩ := iterate_some evaluated
  rw [pivots, values, reduced, point.values_eq valid inverted] at choice
  obtain ⟨enters, leaves⟩ := choice
  have descends := Program.descends le_rfl valid inverted enters
  obtain ⟨inside, entry, found, positive, after⟩ :=
    descends.pivot point (valid.nodup inverted) leaves
  have valid' := valid.set descends.column row
  have nonsingular := valid'.isUnit
    (valid.independent_set inverted descends.column descends.outside found positive.ne')
  -- The ratio is the length of the step along the ray, on which the objective has a slope.
  refine ⟨after.feasibleBasis valid' nonsingular, x basis[row] / entry, _,
    div_nonneg (point.nonneg _) positive.le, descends.falls,
    point.minimumRatio valid inverted leaves inside found, ?_⟩
  rw [after.determined.basicObjective_eq valid' nonsingular,
    point.determined.basicObjective_eq valid feasible.nonsingular, objective_add_mul]

end Program

variable {program : Program Rat} {pricing : PricingRule} {start basis : List Nat}

theorem Visited.feasibleBasis (visited : Visited pricing 0 program start basis)
    (feasible : program.FeasibleBasis start) : program.FeasibleBasis basis := by
  induction visited with
  | refl => exact feasible
  | tail _ pivots ih =>
    obtain ⟨iterate, entering, row, evaluated, decision, rfl⟩ := pivots
    exact (ih.pivot evaluated decision).1

/-- From a feasible start a run in exact arithmetic evaluates visited bases only, and every visited
basis is feasible. The objective does not rise from it to the next one, and falls if the minimum
ratio of the pivot is positive. -/
theorem visited_feasible_monotone {solver : Solver Rat} (exact : solver.tolerance = 0)
    (feasible : program.FeasibleBasis start) :
    (∀ basis ∈ bases solver program start,
      Visited solver.pricing solver.tolerance program start basis) ∧
    ∀ basis, Visited solver.pricing solver.tolerance program start basis →
      program.FeasibleBasis basis ∧ ∀ iterate entering row,
        Simplex.iterate solver.pricing solver.tolerance program basis = some iterate →
        iterate.decision = .pivot entering row →
          program.basicObjective (basis.set row entering) ≤ program.basicObjective basis ∧
          ∃ ratio, program.MinimumRatio basis entering ratio ∧ (0 < ratio →
            program.basicObjective (basis.set row entering) < program.basicObjective basis) := by
  refine ⟨fun basis => visited_of_mem, fun basis visited => ?_⟩
  rw [exact] at visited ⊢
  have here := visited.feasibleBasis feasible
  refine ⟨here, fun iterate entering row evaluated decision => ?_⟩
  obtain ⟨_, ratio, slope, forth, falls, least, moved⟩ := here.pivot evaluated decision
  rw [moved]
  refine ⟨?_, ratio, least, fun positive => ?_⟩
  · exact add_le_of_nonpos_right (mul_nonpos_of_nonneg_of_nonpos forth falls.le)
  · exact add_lt_of_neg_right _ (mul_neg_of_pos_of_neg positive falls)

/-- Two columns compete in rows of which the first limits them more. -/
def wedge : Program Rat where
  rows := [[1, 2, 1, 0], [1, 1, 0, 1]]
  rhs := [2, 3]
  costs := [-1, -3, 0, 0]

theorem visited_feasible_monotone_wedge :
    wedge.FeasibleBasis [2, 3] ∧ [1, 3] ∈ bases ⟨10, 0, .dantzig⟩ wedge [2, 3] ∧
      wedge.FeasibleBasis [1, 3] ∧
      wedge.basicObjective ([2, 3].set 0 1) ≤ wedge.basicObjective [2, 3] := by
  have evaluated : Simplex.iterate .dantzig 0 wedge [2, 3] =
      some ⟨[2, 3], [(0, -1), (1, -3)], .pivot 1 0⟩ := by with_unfolding_all rfl
  have feasible : wedge.FeasibleBasis [2, 3] :=
    .of_iterate ⟨rfl, by decide⟩ evaluated (by decide)
  have run : bases ⟨10, 0, .dantzig⟩ wedge [2, 3] = [[2, 3], [1, 3]] := by with_unfolding_all rfl
  have member : [1, 3] ∈ bases ⟨10, 0, .dantzig⟩ wedge [2, 3] := by
    rw [run]
    decide
  obtain ⟨visited, monotone⟩ :=
    @visited_feasible_monotone wedge [2, 3] ⟨10, 0, .dantzig⟩ rfl feasible
  exact ⟨feasible, member, (monotone _ (visited _ member)).1,
    ((monotone _ .refl).2 _ _ _ evaluated rfl).1⟩

end LinOpt.Simplex
