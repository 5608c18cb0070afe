import Mathlib.Data.List.Forall2
import Mathlib.Tactic.Linarith
import LinOpt.Proofs.StandardForm.Shape

/-!
# Bound elimination is exact

Over the rational numbers every pair of bounds that is not malformed falls into one of seven
classes. What the columns of a variable can add up to, together with the rows that bound them, is
then exactly what its bounds contain.
-/

namespace LinOpt

/-- The seven classes of bounds and the elimination that each one gets. -/
inductive Eliminates : Bounds ExtendedRat → Elimination Rat → Prop where
  | split : Eliminates ⟨.negInf, .posInf⟩ .split
  | keep : Eliminates ⟨.finite 0, .posInf⟩ .keep
  | shift {lower : Rat} (nonzero : lower ≠ 0) :
      Eliminates ⟨.finite lower, .posInf⟩ (.substitute lower 1 none)
  | mirror {upper : Rat} : Eliminates ⟨.negInf, .finite upper⟩ (.substitute upper (-1) none)
  | upperRow {upper : Rat} (ordered : 0 ≤ upper) :
      Eliminates ⟨.finite 0, .finite upper⟩ (.rows none upper)
  | bothRows {lower upper : Rat} (positive : 0 < lower) (ordered : lower ≤ upper) :
      Eliminates ⟨.finite lower, .finite upper⟩ (.rows (some lower) upper)
  | shiftRow {lower upper : Rat} (negative : lower < 0) (ordered : lower ≤ upper) :
      Eliminates ⟨.finite lower, .finite upper⟩ (.substitute lower 1 (some (upper - lower)))

private theorem not_malformed {lower upper : ExtendedRat}
    (sound : ¬ (Bounds.mk lower upper).isMalformed = true) :
    lower ≠ .posInf ∧ upper ≠ .negInf ∧ ExtendedRat.lt upper lower = false := by
  simp only [Bounds.isMalformed, Bool.or_eq_true, not_or] at sound
  obtain ⟨⟨⟨⟨_, _⟩, low⟩, high⟩, order⟩ := sound
  refine ⟨fun same => low ?_, fun same => high ?_, ?_⟩
  · subst same
    rfl
  · subst same
    rfl
  · exact Bool.eq_false_iff.mpr fun below => order (decide_eq_true below)

theorem Eliminates.of_elimination? {bounds : Bounds ExtendedRat} {elimination : Elimination Rat}
    (found : bounds.elimination? = some elimination) : Eliminates bounds elimination := by
  obtain ⟨lower, upper⟩ := bounds
  unfold Bounds.elimination? at found
  split at found
  · cases found
  next sound =>
    obtain ⟨low, high, order⟩ := not_malformed sound
    cases lower with
    | posInf => exact absurd rfl low
    | negInf =>
      cases upper with
      | negInf => exact absurd rfl high
      | posInf =>
        cases found
        exact .split
      | finite upper =>
        cases found
        exact .mirror
    | finite lower =>
      cases upper with
      | negInf => exact absurd rfl high
      | posInf =>
        simp only [Endpoint.finite?, ExtendedRat.finite?, Option.some.injEq] at found
        split at found
        next zero =>
          obtain rfl : lower = 0 := eq_of_beq zero
          subst found
          exact .keep
        next nonzero =>
          subst found
          exact .shift fun zero => nonzero (beq_of_eq zero)
      | finite upper =>
        have ordered : lower ≤ upper := not_lt.mp (of_decide_eq_false order)
        simp only [Endpoint.finite?, ExtendedRat.finite?, Option.some.injEq] at found
        split at found
        next zero =>
          obtain rfl : lower = 0 := eq_of_beq zero
          subst found
          exact .upperRow ordered
        next nonzero =>
          split at found
          next positive =>
            subst found
            exact .bothRows positive ordered
          next notPositive =>
            subst found
            have different : lower ≠ 0 := fun zero => nonzero (beq_of_eq zero)
            exact .shiftRow (lt_of_le_of_ne (not_lt.mp notPositive) different) ordered

/-! ### What the columns of a variable can add up to -/

namespace Elimination

/-- What non-negative columns can add to the offset: columns of one sign add no amount of the
other, and the rows of the bounds hold. -/
@[mk_iff]
structure Allows (elimination : Elimination Rat) (amount : Rat) : Prop where
  upward : (∀ column ∈ elimination.columns, 0 ≤ column.2) → 0 ≤ amount
  downward : (∀ column ∈ elimination.columns, column.2 ≤ 0) → amount ≤ 0
  rows : ∀ row ∈ elimination.boundRows, row.2.1.Holds amount row.2.2

end Elimination

namespace Eliminates

variable {bounds : Bounds ExtendedRat} {elimination : Elimination Rat} {amount : Rat}

theorem contains_iff (eliminates : Eliminates bounds elimination) :
    bounds.Contains (elimination.offset?.getD 0 + amount) ↔ elimination.Allows amount := by
  rw [Elimination.allows_iff]
  cases eliminates
  all_goals simp [Bounds.Contains, ExtendedRat.BoundsBelow, ExtendedRat.BoundsAbove,
    Elimination.columns, Elimination.boundRows, Elimination.offset?, Sense.Holds]
  case bothRows positive ordered =>
    -- The column is non-negative because its lower row says more than that.
    exact fun low _ => positive.le.trans low
  case shiftRow negative ordered =>
    exact fun _ => le_sub_iff_add_le'.symm

/-- A column takes what its sign lets it take of an allowed amount, and nothing is left. -/
theorem sum_columns (eliminates : Eliminates bounds elimination)
    (allowed : elimination.Allows amount) :
    (elimination.columns.map fun column => column.2 * max 0 (column.2 * amount)).sum =
      amount := by
  have upward := allowed.upward
  have downward := allowed.downward
  cases eliminates with
  | split =>
    rcases le_total 0 amount with positive | negative
    · simp [Elimination.columns, positive]
    · simp [Elimination.columns, negative]
  | mirror =>
    have negative : amount ≤ 0 := downward (by simp [Elimination.columns])
    simp [Elimination.columns, negative]
  | keep | shift | upperRow | bothRows | shiftRow =>
    have positive : 0 ≤ amount := upward (by simp [Elimination.columns])
    simp [Elimination.columns, positive]

/-- A variable whose bounds become rows has a single column, which counts once. -/
theorem columns_of_boundRows (eliminates : Eliminates bounds elimination)
    {row : String × Sense × Rat} (bounded : row ∈ elimination.boundRows) :
    elimination.columns = [("", 1)] := by
  cases eliminates with
  | split | keep | shift nonzero | mirror => cases bounded
  | upperRow ordered | bothRows positive ordered | shiftRow negative ordered => rfl

end Eliminates

/-! ### The eliminations of a problem -/

namespace StandardForm

/-- When every variable has an elimination, it is the one of the variable's bounds. -/
theorem eliminations_ok {problem : Problem Rat ExtendedRat} (rectangular : problem.Rectangular)
    {found : List (Elimination Rat)} (returned : eliminations problem = .ok found) :
    List.Forall₂ Eliminates problem.bounds found := by
  have chosen : List.Forall₂ (fun pair elimination => Eliminates pair.2 elimination)
      (problem.names.zip problem.bounds) found :=
    (Problem.eliminations_eq_ok_iff.mp returned).imp fun _ _ => .of_elimination?
  have bounds : (problem.names.zip problem.bounds).map Prod.snd = problem.bounds :=
    List.map_snd_zip rectangular.bounds.le
  rw [← bounds]
  exact List.forall₂_map_left_iff.mpr chosen

end StandardForm

end LinOpt
