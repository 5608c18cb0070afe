import LinOpt.Proofs.StandardForm.Elimination
import LinOpt.Proofs.StandardForm.Equations

/-!
# Feasibility under substitution

Non-negative values of the columns satisfy the rows before they become equations exactly when the
values recovered from them satisfy the given rows and bounds, and every feasible point is
recovered from such values.
-/

namespace LinOpt

theorem Sense.holds_sub_iff {sense : Sense} {left right shift : Rat} :
    sense.Holds left (right - shift) ↔ sense.Holds (shift + left) right := by
  cases sense with
  | le => exact le_sub_iff_add_le'
  | eq => exact eq_sub_iff_add_eq'
  | ge => exact sub_le_iff_le_add'

variable {problem : Problem Rat ExtendedRat}

theorem Problem.Rectangular.length_eliminations (rectangular : problem.Rectangular)
    {eliminations : List (Elimination Rat)}
    (eliminated : List.Forall₂ Eliminates problem.bounds eliminations) :
    problem.names.length = eliminations.length :=
  rectangular.bounds.symm.trans eliminated.length_eq

namespace StandardForm

variable {eliminations : List (Elimination Rat)}

/-- What the columns add to the offset of a variable. -/
def amount (names : List String) (eliminations : List (Elimination Rat)) (values : List Rat)
    (i : Nat) : Rat :=
  Scalar.dot ((structuralColumns names eliminations).map fun c =>
    if c.index = i then c.scale else 0) values

/-! ### Recovery without the auxiliary columns -/

theorem getElem?_recover_ofEliminations (values : List Rat) (i : Nat) :
    ((ofEliminations problem eliminations).recover values)[i]? = eliminations[i]?.map fun e =>
      e.offset?.getD 0 + amount problem.names eliminations values i := by
  have weights : Scalar.dot ((ofEliminations problem eliminations).columns.map
      (Column.weight i)) values = amount problem.names eliminations values i := by
    simp only [ofEliminations, List.map_append, List.map_map]
    refine Scalar.dot_append_zero (fun w member => ?_) values
    obtain ⟨auxiliary, listed, rfl⟩ := List.mem_map.mp member
    exact weight_auxiliary listed i
  rw [getElem?_recover, weights]
  simp [ofEliminations, Function.comp_def]

theorem dot_recover_ofEliminations {row : List Rat} (fits : row.length ≤ eliminations.length)
    (values : List Rat) :
    Scalar.dot row ((ofEliminations problem eliminations).recover values) =
      Scalar.dot row (ofEliminations problem eliminations).offsets +
        Scalar.dot ((structuralColumns problem.names eliminations).map fun c =>
          row.getD c.index 0 * c.scale) values := by
  have columns : Scalar.dot ((ofEliminations problem eliminations).columns.map
      (Column.coefficient row)) values =
        Scalar.dot ((structuralColumns problem.names eliminations).map fun c =>
          row.getD c.index 0 * c.scale) values := by
    simp only [ofEliminations, List.map_append, List.map_map]
    refine Scalar.dot_append_zero (fun w member => ?_) values
    obtain ⟨auxiliary, listed, rfl⟩ := List.mem_map.mp member
    exact coefficient_auxiliary listed row
  rw [dot_recover _ (by simpa [ofEliminations] using fits), columns]

theorem shiftedRhs_eq (constraint : Constraint Rat) :
    shiftedRhs constraint eliminations = constraint.rhs -
      Scalar.dot constraint.coefficients (eliminations.map fun e => e.offset?.getD 0) := by
  unfold shiftedRhs
  generalize constraint.coefficients = coefficients
  generalize constraint.rhs = rhs
  induction coefficients generalizing eliminations rhs with
  | nil => simp
  | cons a coefficients ih =>
    cases eliminations with
    | nil => simp
    | cons e eliminations =>
      rw [List.zip_cons_cons, List.foldl_cons, ih, List.map_cons, Scalar.dot_cons]
      cases offset : e.offset? with
      | none => simp only [offset, Option.getD_none, mul_zero, zero_add]
      | some value =>
        simp only [offset, Option.getD_some]
        by_cases zero : a = 0
        · simp [zero]
        · simp [zero, sub_sub]

theorem substituted_holds {constraint : Constraint Rat}
    (fits : constraint.coefficients.length ≤ eliminations.length) (values : List Rat) :
    (substituted constraint eliminations
        (structuralColumns problem.names eliminations)).Holds values ↔
      constraint.Holds ((ofEliminations problem eliminations).recover values) := by
  rw [Constraint.Holds, Constraint.Holds, dot_recover_ofEliminations fits, substituted,
    shiftedRhs_eq]
  exact Sense.holds_sub_iff

/-! ### The rows and bounds of the given problem -/

private theorem boundConstraints_eq (names : List String) (columns : List (Structural Rat)) :
    boundConstraints names eliminations columns =
      ((names.zip eliminations).mapIdx fun i named => named.2.boundRows.map fun row =>
        { name := named.1 ++ row.1
          coefficients := columns.map fun c => if c.index = i then 1 else 0
          sense := row.2.1
          rhs := row.2.2 }).flatten := rfl

theorem mem_boundConstraints {names : List String} (named : names.length = eliminations.length)
    {columns : List (Structural Rat)} {constraint : Constraint Rat} :
    constraint ∈ boundConstraints names eliminations columns ↔
      ∃ (i : Nat) (name : String) (e : Elimination Rat),
        names[i]? = some name ∧ eliminations[i]? = some e ∧ ∃ row ∈ e.boundRows,
          constraint =
            { name := name ++ row.1
              coefficients := columns.map fun c => if c.index = i then 1 else 0
              sense := row.2.1
              rhs := row.2.2 } := by
  rw [boundConstraints_eq, List.mem_flatten]
  constructor
  · rintro ⟨block, isBlock, inside⟩
    obtain ⟨i, small, rfl⟩ := List.mem_mapIdx.mp isBlock
    obtain ⟨row, bounded, rfl⟩ := List.mem_map.mp inside
    rw [List.getElem_zip] at bounded ⊢
    exact ⟨i, _, _, List.getElem?_eq_getElem _, List.getElem?_eq_getElem _, row, bounded, rfl⟩
  · rintro ⟨i, name, e, first, second, row, bounded, rfl⟩
    obtain ⟨small, rfl⟩ := List.getElem?_eq_some_iff.mp first
    obtain ⟨_, rfl⟩ := List.getElem?_eq_some_iff.mp second
    refine ⟨_, List.mem_mapIdx.mpr ⟨i, by simpa [named] using small, rfl⟩, ?_⟩
    rw [List.getElem_zip]
    exact List.mem_map.mpr ⟨row, bounded, rfl⟩

private theorem forall₂_iff_getElem? {γ δ : Type} {related : γ → δ → Prop} {xs : List γ}
    {ys : List δ} : List.Forall₂ related xs ys ↔ xs.length = ys.length ∧
      ∀ (i : Nat) x y, xs[i]? = some x → ys[i]? = some y → related x y := by
  rw [List.forall₂_iff_get]
  refine and_congr_right fun _ => ⟨fun pairs i x y first second => ?_, fun pairs i h₁ h₂ => ?_⟩
  · obtain ⟨h₁, rfl⟩ := List.getElem?_eq_some_iff.mp first
    obtain ⟨h₂, rfl⟩ := List.getElem?_eq_some_iff.mp second
    exact pairs i h₁ h₂
  · exact pairs i _ _ (List.getElem?_eq_getElem h₁) (List.getElem?_eq_getElem h₂)

/-- The bounds that an elimination belongs to. -/
private theorem bounds_of_elimination {bounds : List (Bounds ExtendedRat)}
    (eliminated : List.Forall₂ Eliminates bounds eliminations) {i : Nat} {e : Elimination Rat}
    (found : eliminations[i]? = some e) : ∃ b, bounds[i]? = some b ∧ Eliminates b e := by
  obtain ⟨same, pairs⟩ := forall₂_iff_getElem?.mp eliminated
  obtain ⟨small, rfl⟩ := List.getElem?_eq_some_iff.mp found
  have place := List.getElem?_eq_getElem (same ▸ small : i < bounds.length)
  exact ⟨_, place, pairs i _ _ place found⟩

theorem boundConstraints_hold (eliminated : List.Forall₂ Eliminates problem.bounds eliminations)
    (named : problem.names.length = eliminations.length) (values : List Rat) :
    (∀ c ∈ boundConstraints problem.names eliminations
        (structuralColumns problem.names eliminations), c.Holds values) ↔
      ∀ i (e : Elimination Rat), eliminations[i]? = some e → ∀ row ∈ e.boundRows,
        row.2.1.Holds (amount problem.names eliminations values i) row.2.2 := by
  -- A variable with such a row has one column, which counts once.
  have indicator (i : Nat) (e : Elimination Rat) (found : eliminations[i]? = some e)
      (row : String × Sense × Rat) (bounded : row ∈ e.boundRows) :
      Scalar.dot ((structuralColumns problem.names eliminations).map fun c =>
        if c.index = i then 1 else 0) values =
          amount problem.names eliminations values i := by
    obtain ⟨b, _, eliminates⟩ := bounds_of_elimination eliminated found
    unfold amount
    congr 1
    refine List.map_congr_left fun c listed => ?_
    split
    next own =>
      obtain ⟨other, place, column, inside, scale⟩ := mem_structuralColumns listed
      rw [own, found] at place
      obtain rfl := Option.some.inj place
      rw [eliminates.columns_of_boundRows bounded, List.mem_singleton] at inside
      rw [← scale, inside]
    · rfl
  constructor
  · intro holds i e found row bounded
    obtain ⟨small, _⟩ := List.getElem?_eq_some_iff.mp found
    have place := List.getElem?_eq_getElem (named ▸ small : i < problem.names.length)
    have satisfied := holds _ ((mem_boundConstraints named).mpr
      ⟨i, _, e, place, found, row, bounded, rfl⟩)
    rwa [Constraint.Holds, indicator i e found row bounded] at satisfied
  · intro holds c member
    obtain ⟨i, name, e, _, found, row, bounded, rfl⟩ := (mem_boundConstraints named).mp member
    rw [Constraint.Holds, indicator i e found row bounded]
    exact holds i e found row bounded

/-- The columns of a variable have the scales that its elimination lists. -/
theorem exists_scale {names : List String} {c : Structural Rat}
    (member : c ∈ structuralColumns names eliminations) {i : Nat} (own : c.index = i)
    {e : Elimination Rat} (found : eliminations[i]? = some e) :
    ∃ column ∈ e.columns, column.2 = c.scale := by
  obtain ⟨other, place, inside⟩ := mem_structuralColumns member
  rw [own, found] at place
  rwa [Option.some.inj place]

theorem amount_nonneg {names : List String} {values : List Rat}
    (nonneg : ∀ value ∈ values, 0 ≤ value) {i : Nat} {e : Elimination Rat}
    (found : eliminations[i]? = some e) (signs : ∀ column ∈ e.columns, 0 ≤ column.2) :
    0 ≤ amount names eliminations values i := by
  refine Scalar.dot_nonneg (fun w member => ?_) nonneg
  obtain ⟨c, inside, rfl⟩ := List.mem_map.mp member
  split
  next own =>
    obtain ⟨column, among, scale⟩ := exists_scale inside own found
    exact scale ▸ signs column among
  · exact le_rfl

theorem amount_nonpos {names : List String} {values : List Rat}
    (nonneg : ∀ value ∈ values, 0 ≤ value) {i : Nat} {e : Elimination Rat}
    (found : eliminations[i]? = some e) (signs : ∀ column ∈ e.columns, column.2 ≤ 0) :
    amount names eliminations values i ≤ 0 := by
  refine Scalar.dot_nonpos (fun w member => ?_) nonneg
  obtain ⟨c, inside, rfl⟩ := List.mem_map.mp member
  split
  next own =>
    obtain ⟨column, among, scale⟩ := exists_scale inside own found
    exact scale ▸ signs column among
  · exact le_rfl

theorem allows_amount {names : List String} {values : List Rat}
    (nonneg : ∀ value ∈ values, 0 ≤ value) {i : Nat} {e : Elimination Rat}
    (found : eliminations[i]? = some e)
    (rows : ∀ row ∈ e.boundRows,
      row.2.1.Holds (amount names eliminations values i) row.2.2) :
    e.Allows (amount names eliminations values i) :=
  ⟨amount_nonneg nonneg found, amount_nonpos nonneg found, rows⟩

/-- How the bounds are related to the recovered values is decided variable by variable. -/
theorem forall₂_recover (eliminated : List.Forall₂ Eliminates problem.bounds eliminations)
    {related : Bounds ExtendedRat → Rat → Prop} (values : List Rat) :
    List.Forall₂ related problem.bounds
        ((ofEliminations problem eliminations).recover values) ↔
      ∀ (i : Nat) b e, problem.bounds[i]? = some b → eliminations[i]? = some e →
        related b (e.offset?.getD 0 + amount problem.names eliminations values i) := by
  have length : problem.bounds.length =
      ((ofEliminations problem eliminations).recover values).length := by
    rw [length_recover, eliminated.length_eq]
    simp [ofEliminations]
  rw [forall₂_iff_getElem?, and_iff_right length]
  constructor
  · intro pairs i b e place found
    refine pairs i b _ place ?_
    rw [getElem?_recover_ofEliminations, found]
    rfl
  · intro each i b x place recovered
    rw [getElem?_recover_ofEliminations] at recovered
    obtain ⟨e, found, rfl⟩ := Option.map_eq_some_iff.mp recovered
    exact each i b e place found

/-- Bounds and eliminations at the same place belong together. -/
theorem eliminates_at (eliminated : List.Forall₂ Eliminates problem.bounds eliminations) {i : Nat}
    {b : Bounds ExtendedRat} {e : Elimination Rat} (place : problem.bounds[i]? = some b)
    (found : eliminations[i]? = some e) : Eliminates b e :=
  (forall₂_iff_getElem?.mp eliminated).2 i b e place found

theorem contains_recover (eliminated : List.Forall₂ Eliminates problem.bounds eliminations)
    (values : List Rat) :
    List.Forall₂ Bounds.Contains problem.bounds
        ((ofEliminations problem eliminations).recover values) ↔
      ∀ i (e : Elimination Rat), eliminations[i]? = some e →
        e.Allows (amount problem.names eliminations values i) := by
  rw [forall₂_recover eliminated]
  constructor
  · intro contained i e found
    obtain ⟨b, place, eliminates⟩ := bounds_of_elimination eliminated found
    exact eliminates.contains_iff.mp (contained i b e place found)
  · intro allowed i b e place found
    exact (eliminates_at eliminated place found).contains_iff.mpr (allowed i e found)

/-- Non-negative columns satisfy the rows if and only if the recovered point is feasible. -/
theorem inequalities_hold (rectangular : problem.Rectangular)
    (eliminated : List.Forall₂ Eliminates problem.bounds eliminations) {values : List Rat}
    (nonneg : ∀ value ∈ values, 0 ≤ value) :
    (∀ c ∈ inequalities problem eliminations, c.Holds values) ↔
      problem.Feasible ((ofEliminations problem eliminations).recover values) := by
  have named := rectangular.length_eliminations eliminated
  have fits (c : Constraint Rat) (member : c ∈ problem.constraints) :
      c.coefficients.length ≤ eliminations.length :=
    (rectangular.rows c member).trans named |>.le
  simp only [inequalities, List.forall_mem_append, List.forall_mem_map]
  rw [boundConstraints_hold eliminated named]
  constructor
  · rintro ⟨rows, bounds⟩
    refine ⟨fun c member => (substituted_holds (fits c member) values).mp (rows c member), ?_⟩
    exact (contains_recover eliminated values).mpr fun i e found =>
      allows_amount nonneg found (bounds i e found)
  · rintro ⟨rows, bounds⟩
    refine ⟨fun c member => (substituted_holds (fits c member) values).mpr (rows c member), ?_⟩
    exact fun i e found => ((contains_recover eliminated values).mp bounds i e found).rows

/-! ### Columns for a given point -/

/-- Each column takes what its sign lets it take of the distance to the offset. -/
def columnValues (structurals : List (Structural Rat)) (offsets x : List Rat) : List Rat :=
  structurals.map fun c => max 0 (c.scale * (x.getD c.index 0 - offsets.getD c.index 0))

theorem amount_columnValues {names : List String} (named : names.length = eliminations.length)
    {i : Nat} {e : Elimination Rat} (found : eliminations[i]? = some e)
    (offsets x : List Rat) :
    amount names eliminations
        (columnValues (structuralColumns names eliminations) offsets x) i =
      (e.columns.map fun column =>
        column.2 * max 0 (column.2 * (x.getD i 0 - offsets.getD i 0))).sum := by
  rw [amount, columnValues, Scalar.dot_map_map, ← sum_structuralColumns named found
    fun scale => scale * max 0 (scale * (x.getD i 0 - offsets.getD i 0))]
  congr 1
  refine List.map_congr_left fun c _ => ?_
  split
  next own => rw [own]
  · exact zero_mul _

theorem recover_columnValues (rectangular : problem.Rectangular)
    (eliminated : List.Forall₂ Eliminates problem.bounds eliminations) {x : List Rat}
    (within : List.Forall₂ Bounds.Contains problem.bounds x) :
    (ofEliminations problem eliminations).recover
      (columnValues (structuralColumns problem.names eliminations)
        (ofEliminations problem eliminations).offsets x) = x := by
  have named := rectangular.length_eliminations eliminated
  have covered : x.length = eliminations.length :=
    within.length_eq.symm.trans eliminated.length_eq
  refine List.ext_getElem? fun i => ?_
  rw [getElem?_recover_ofEliminations]
  cases found : eliminations[i]? with
  | none =>
    have beyond : x.length ≤ i := covered.symm ▸ List.getElem?_eq_none_iff.mp found
    rw [List.getElem?_eq_none_iff.mpr beyond]
    rfl
  | some e =>
    obtain ⟨small, _⟩ := List.getElem?_eq_some_iff.mp found
    obtain ⟨v, value⟩ : ∃ v, x[i]? = some v :=
      ⟨_, List.getElem?_eq_getElem (covered ▸ small : i < x.length)⟩
    obtain ⟨b, place, eliminates⟩ := bounds_of_elimination eliminated found
    have contained := (forall₂_iff_getElem?.mp within).2 i b _ place value
    have offset : (ofEliminations problem eliminations).offsets.getD i 0 =
        e.offset?.getD 0 := by
      simp [ofEliminations, List.getD_eq_getElem?_getD, found]
    -- The distance of a value within the bounds to the offset is an allowed amount.
    rw [← add_sub_cancel (e.offset?.getD 0) v] at contained
    have total := eliminates.sum_columns (eliminates.contains_iff.mp contained)
    rw [Option.map_some, amount_columnValues named found, offset, List.getD_eq_getElem?_getD,
      value, Option.getD_some, total, add_sub_cancel]

end StandardForm

end LinOpt
