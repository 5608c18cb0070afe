import LinOpt.Proofs.Scalar.Comparison
import LinOpt.Proofs.Scalar.Unit
import LinOpt.Proofs.StandardForm.Equations

/-!
# The matrix of a standard form

The columns of a standard form say where they come from, and that is enough to know the matrix. A
variable has one column or two, by which of its ends are finite. The given rows come first, then the
rows of the bounds, and each of them may have been turned around. The entry of a row at a structural
column is then a product of a sign, a scale and a coefficient, and an inequality has a column of its
own at the end.
-/

namespace LinOpt

variable {α β : Type} [Scalar α] [Endpoint β α]

/-! ### What the bounds ask for -/

namespace Bounds

/-- The columns that replace a variable: what is added to its name, and the scale. -/
def replacements (bounds : Bounds β) : List (String × α) :=
  match Endpoint.finite? bounds.lower, Endpoint.finite? bounds.upper with
  | none, none => [("'", 1), ("''", -1)]
  | none, some _ => [("", -1)]
  | some _, _ => [("", 1)]

/-- The rows that keep a variable between two finite ends. A lower end that is not positive needs
none. -/
def rowKinds (bounds : Bounds β) : List (String × Sense) :=
  match Endpoint.finite? bounds.lower, Endpoint.finite? bounds.upper with
  | some lower, some _ =>
    if 0 < lower then [("_lower", .ge), ("_upper", .le)] else [("_upper", .le)]
  | _, _ => []

/-- The bounds choose the elimination that has these columns and these rows. -/
theorem elimination?_spec (zero_not_pos : ∀ x : α, (x == 0) = true → ¬ 0 < x)
    {bounds : Bounds β} {elimination : Elimination α}
    (found : bounds.elimination? = some elimination) :
    elimination.columns = bounds.replacements ∧
      elimination.boundRows.map (fun row => (row.1, row.2.1)) = bounds.rowKinds := by
  unfold elimination? at found
  unfold replacements rowKinds
  split at found
  · cases found
  cases low : Endpoint.finite? bounds.lower <;> cases high : Endpoint.finite? bounds.upper <;>
    simp only [low, high, Option.some.injEq] at found <;> subst found
  case some.some lower upper =>
    -- A zero is no positive end, so it has no row of its own.
    by_cases zero : (lower == 0) = true
    · simp [zero, zero_not_pos lower zero, Elimination.columns, Elimination.boundRows]
    · by_cases positive : 0 < lower <;>
        simp [zero, positive, Elimination.columns, Elimination.boundRows]
  case some.none lower => split <;> exact ⟨rfl, rfl⟩
  all_goals exact ⟨rfl, rfl⟩

end Bounds

/-! ### The rows before they become equations -/

/-- A row over structural columns, which are known by their variable and their scale. -/
structure SourceRow (α : Type) where
  name : String
  sense : Sense
  entry : (index : Nat) → (scale : α) → α

namespace SourceRow

def ofConstraint (constraint : Constraint α) : SourceRow α where
  name := constraint.name
  sense := constraint.sense
  entry index scale := scale * constraint.coefficients.getD index 0

/-- A row that bounds one variable. -/
def ofBound (name : String) (sense : Sense) (index : Nat) : SourceRow α where
  name := name
  sense := sense
  entry i _ := if i = index then 1 else 0

/-- The row after both sides have been multiplied by `-1`, if `negative` holds. -/
def turned (source : SourceRow α) (negative : Bool) : SourceRow α where
  name := source.name
  sense := if negative then source.sense.flipped else source.sense
  entry index scale := Scalar.signed negative 1 * source.entry index scale

/-- The column that an inequality has for itself, with its name. -/
def auxiliary? (source : SourceRow α) (row : Nat) : Option (String × Column α) :=
  match source.sense with
  | .eq => none
  | .le => some ("s_" ++ source.name, .slack row)
  | .ge => some ("e_" ++ source.name, .surplus row)

def auxiliaries (sources : List (SourceRow α)) : List (String × Column α) :=
  sources.zipIdx.filterMap fun (source, row) => source.auxiliary? row

end SourceRow

namespace Problem

/-- The columns that replace the variables, in the order of the variables. -/
def replacements (problem : Problem α β) : List (StandardForm.Structural α) :=
  ((problem.names.zip problem.bounds).mapIdx fun index named =>
    named.2.replacements.map fun column => ⟨named.1 ++ column.1, index, column.2⟩).flatten

/-- The given rows, and after them the rows of the bounds in the order of the variables. -/
def sourceRows (problem : Problem α β) : List (SourceRow α) :=
  problem.constraints.map .ofConstraint ++
    ((problem.names.zip problem.bounds).mapIdx fun index named =>
      named.2.rowKinds.map fun kind => .ofBound (named.1 ++ kind.1) kind.2 index).flatten

/-- The costs of a minimization. -/
def minimizedCosts (problem : Problem α β) : List α :=
  if problem.objective.goal == .maximize then problem.objective.coefficients.map (- ·)
  else problem.objective.coefficients

end Problem

namespace Column

/-- The entry of a row at a column. -/
def entry (source : SourceRow α) (row : Nat) : Column α → α
  | .structural index scale => source.entry index scale
  | .slack own => if own = row then 1 else 0
  | .surplus own => if own = row then -1 else 0

def cost (costs : List α) : Column α → α
  | .structural index scale => costs.getD index 0 * scale
  | .slack _ | .surplus _ => 0

end Column

namespace StandardForm

/-- The columns are the structural ones and one for each inequality, and what they say about
themselves determines the matrix. -/
structure HasMatrix (form : StandardForm α β) (structurals : List (Structural α))
    (sources : List (SourceRow α)) (costs : List α) : Prop where
  columns : form.columns = structurals.map (fun c => .structural c.index c.scale) ++
    (SourceRow.auxiliaries sources).map Prod.snd
  names : form.problem.names = structurals.map (·.name) ++
    (SourceRow.auxiliaries sources).map Prod.fst
  rowNames : form.problem.constraints.map (·.name) = sources.map (·.name)
  coefficients : form.problem.constraints.map (·.coefficients) =
    sources.mapIdx fun row source => form.columns.map (Column.entry source row)
  costs : form.problem.objective.coefficients = form.columns.map (Column.cost costs)

/-- What a standard form says about its columns is true of its problem. Ends that are not finite
are the infinities of their sides, and a row is turned around or not. -/
structure Describes (form : StandardForm α β) (problem : Problem α β) : Prop where
  width : form.columns.length = form.problem.numVariables
  equations : form.problem.EquationForm
  ends : ∀ bounds ∈ problem.bounds,
    (Endpoint.finite? bounds.lower = none → (bounds.lower == Endpoint.negInf) = true) ∧
      (Endpoint.finite? bounds.upper = none → (bounds.upper == Endpoint.posInf) = true)
  matrix : ∃ negative : List Bool, negative.length = problem.sourceRows.length ∧
    form.HasMatrix problem.replacements
      (List.zipWith SourceRow.turned problem.sourceRows negative) problem.minimizedCosts

/-! ### Lists in parallel -/

theorem map_mapIdx {γ δ η : Type} (xs : List γ) (f : Nat → γ → δ) (g : δ → η) :
    (xs.mapIdx f).map g = xs.mapIdx fun i x => g (f i x) :=
  List.ext_getElem? fun i => by simp [Function.comp_def]

/-- What is computed from the values at equal places is equal if it is at each place. -/
theorem mapIdx_eq_of_forall₂ {γ δ η : Type} {related : γ → δ → Prop} {xs : List γ} {ys : List δ}
    (pairs : List.Forall₂ related xs ys) {f : Nat → γ → η} {g : Nat → δ → η}
    (same : ∀ i x y, related x y → f i x = g i y) : xs.mapIdx f = ys.mapIdx g := by
  induction pairs generalizing f g with
  | nil => rfl
  | cons first _ ih =>
    rw [List.mapIdx_cons, List.mapIdx_cons, same 0 _ _ first,
      ih fun i x y related => same (i + 1) x y related]

theorem forall₂_mapIdx {γ δ η : Type} {related : δ → η → Prop} (xs : List γ) {f : Nat → γ → δ}
    {g : Nat → γ → η} (each : ∀ i x, related (f i x) (g i x)) :
    List.Forall₂ related (xs.mapIdx f) (xs.mapIdx g) := by
  induction xs generalizing f g with
  | nil => exact .nil
  | cons x xs ih =>
    rw [List.mapIdx_cons, List.mapIdx_cons]
    exact .cons (each 0 x) (ih fun i => each (i + 1))

/-- What is beside a second list is beside a third one that goes along with the second. -/
theorem forall₂_zip_of_forall₂ {γ δ η : Type} (related : δ → η → Prop) {names : List γ}
    {xs : List δ} {ys : List η}
    (pairs : List.Forall₂ (fun pair y => related pair.2 y) (names.zip xs) ys) :
    List.Forall₂ (fun pair named => pair.1 = named.1 ∧ related pair.2 named.2)
      (names.zip xs) (names.zip ys) := by
  induction names generalizing xs ys with
  | nil => exact .nil
  | cons name names ih =>
    cases xs with
    | nil =>
      cases pairs
      exact .nil
    | cons x xs =>
      cases pairs with
      | cons first rest => exact .cons ⟨rfl, first⟩ (ih rest)

/-! ### From constraints to sources -/

/-- What multiplication keeps of its laws when it rounds, and that a zero is not positive. -/
structure MultiplicationLaws (α : Type) [Scalar α] : Prop where
  mul_comm : ∀ x y : α, x * y = y * x
  mul_one : ∀ x : α, x * 1 = x
  neg_mul : ∀ x y : α, -x * y = -(x * y)
  zero_not_pos : ∀ x : α, (x == 0) = true → ¬ 0 < x

/-- The row has the entries of the source at the columns. -/
structure IsRow (columns : List (Structural α)) (constraint : Constraint α)
    (source : SourceRow α) : Prop where
  name : constraint.name = source.name
  sense : constraint.sense = source.sense
  coefficients : constraint.coefficients = columns.map fun c => source.entry c.index c.scale

section Laws

variable (laws : MultiplicationLaws α) {problem : Problem α β}
  {chosen : List (Elimination α)} {columns : List (Structural α)}

omit [Endpoint β α] in
include laws in
theorem MultiplicationLaws.signed_mul (negative : Bool) (x : α) :
    Scalar.signed negative 1 * x = Scalar.signed negative x := by
  cases negative with
  | false => exact (laws.mul_comm 1 x).trans (laws.mul_one x)
  | true =>
    show -1 * x = -x
    rw [laws.neg_mul, laws.mul_comm, laws.mul_one]

omit [Endpoint β α] in
include laws in
theorem IsRow.oriented {constraint : Constraint α} {source : SourceRow α}
    (isRow : IsRow columns constraint source) :
    IsRow columns (oriented constraint) (source.turned (decide (constraint.rhs < 0))) := by
  -- A sign times an entry is the entry or its negation, also where rounding is involved.
  have entries (negative : Bool) : (columns.map fun c =>
      (source.turned negative).entry c.index c.scale) =
        constraint.coefficients.map (Scalar.signed negative) := by
    rw [isRow.coefficients, List.map_map]
    exact List.map_congr_left fun c _ => laws.signed_mul negative _
  unfold StandardForm.oriented
  split
  next negative =>
    rw [decide_eq_true negative]
    exact ⟨isRow.name, congrArg Sense.flipped isRow.sense, (entries true).symm⟩
  next nonneg =>
    rw [decide_eq_false nonneg]
    exact ⟨isRow.name, isRow.sense, by rw [entries false]; exact (List.map_id _).symm⟩

/-- Names and eliminations in parallel with names and bounds that chose the eliminations. -/
theorem forall₂_zip_eliminations (eliminated : eliminations problem = .ok chosen) :
    List.Forall₂ (fun pair named => pair.1 = named.1 ∧ pair.2.elimination? = some named.2)
      (problem.names.zip problem.bounds) (problem.names.zip chosen) :=
  forall₂_zip_of_forall₂
    (fun (bounds : Bounds β) elimination => bounds.elimination? = some elimination)
    (Problem.eliminations_eq_ok_iff.mp eliminated)

include laws

/-- The structural columns are the replacements that the bounds ask for. -/
theorem structuralColumns_eq_replacements (eliminated : eliminations problem = .ok chosen) :
    structuralColumns problem.names chosen = problem.replacements := by
  rw [structuralColumns_eq, Problem.replacements, eq_comm]
  refine congrArg List.flatten
    (mapIdx_eq_of_forall₂ (forall₂_zip_eliminations eliminated) fun i pair named same => ?_)
  rw [same.1, (Bounds.elimination?_spec laws.zero_not_pos same.2).1]

theorem boundConstraints_rows (eliminated : eliminations problem = .ok chosen) :
    List.Forall₂ (IsRow columns) (boundConstraints problem.names chosen columns)
      ((problem.names.zip problem.bounds).mapIdx fun index named =>
        named.2.rowKinds.map fun kind => .ofBound (named.1 ++ kind.1) kind.2 index).flatten := by
  -- What the bounds ask for is what their eliminations list, apart from the right sides.
  have asked : ((problem.names.zip problem.bounds).mapIdx fun index named =>
      named.2.rowKinds.map fun kind => SourceRow.ofBound (named.1 ++ kind.1) kind.2 index) =
        (problem.names.zip chosen).mapIdx fun index named =>
          named.2.boundRows.map fun row =>
            SourceRow.ofBound (α := α) (named.1 ++ row.1) row.2.1 index := by
    refine mapIdx_eq_of_forall₂ (forall₂_zip_eliminations eliminated) fun i pair named same => ?_
    rw [same.1, ← (Bounds.elimination?_spec laws.zero_not_pos same.2).2, List.map_map]
    rfl
  rw [asked]
  refine List.rel_flatten (forall₂_mapIdx _ fun i named => ?_)
  rw [List.forall₂_map_left_iff, List.forall₂_map_right_iff, List.forall₂_same]
  exact fun row _ => ⟨rfl, rfl, rfl⟩

/-- The rows before they become equations are the given ones and those that the bounds ask for. -/
theorem inequalities_rows (eliminated : eliminations problem = .ok chosen) :
    List.Forall₂ (IsRow (structuralColumns problem.names chosen))
      (inequalities problem chosen) problem.sourceRows := by
  refine List.rel_append ?_ (boundConstraints_rows laws eliminated)
  rw [List.forall₂_map_left_iff, List.forall₂_map_right_iff, List.forall₂_same]
  refine fun c _ => ⟨rfl, rfl, ?_⟩
  exact List.map_congr_left fun column _ => laws.mul_comm _ _

omit [Endpoint β α] in
theorem forall₂_oriented {constraints : List (Constraint α)} {sources : List (SourceRow α)}
    (rows : List.Forall₂ (IsRow columns) constraints sources) :
    List.Forall₂ (IsRow columns) (constraints.map oriented)
      (List.zipWith SourceRow.turned sources (constraints.map fun c => decide (c.rhs < 0))) := by
  induction rows with
  | nil => exact .nil
  | cons first _ ih => exact .cons (first.oriented laws) ih

end Laws

/-! ### Equations -/

section Equations

omit [Endpoint β α]

variable {columns : List (Structural α)} {constraints : List (Constraint α)}
  {sources : List (SourceRow α)} (rows : List.Forall₂ (IsRow columns) constraints sources)

include rows in
/-- The auxiliary columns are those that the senses of the rows ask for. -/
theorem auxiliaryColumns_eq_auxiliaries :
    (auxiliaryColumns constraints).map (fun a => (a.name, a.column)) =
      SourceRow.auxiliaries sources := by
  have each {constraint : Constraint α} {source : SourceRow α}
      (isRow : IsRow columns constraint source) (row : Nat) :
      (auxiliaryColumn? constraint row).map (fun a => (a.name, a.column)) =
        source.auxiliary? row := by
    rw [auxiliaryColumn?, SourceRow.auxiliary?, ← isRow.name, ← isRow.sense]
    cases constraint.sense <;> rfl
  rw [auxiliaryColumns, SourceRow.auxiliaries]
  -- The induction is on the rows, the first of which may stand anywhere.
  generalize 0 = start
  induction rows generalizing start with
  | nil => rfl
  | @cons constraint source _ _ first _ ih =>
    simp only [List.zipIdx_cons, List.filterMap_cons, ← each first start, ← ih]
    cases auxiliaryColumn? constraint start <;> rfl

/-- An auxiliary column counts in its own row and in no other one. -/
theorem entry_auxiliary {auxiliary : Auxiliary α}
    (listed : auxiliary ∈ auxiliaryColumns constraints) (source : SourceRow α) (row : Nat) :
    auxiliary.column.entry source row = if auxiliary.row = row then auxiliary.sign else 0 := by
  obtain ⟨constraint, _, created⟩ := mem_auxiliaryColumns listed
  obtain ⟨_, ⟨_, sign, column⟩ | ⟨_, sign, column⟩⟩ := auxiliaryColumn?_some created <;>
    rw [sign, column] <;> rfl

theorem cost_auxiliary {auxiliary : Auxiliary α}
    (listed : auxiliary ∈ auxiliaryColumns constraints) (costs : List α) :
    auxiliary.column.cost costs = 0 := by
  obtain ⟨constraint, _, created⟩ := mem_auxiliaryColumns listed
  obtain ⟨_, ⟨_, _, column⟩ | ⟨_, _, column⟩⟩ := auxiliaryColumn?_some created <;>
    rw [column] <;> rfl

include rows

theorem map_name_equation (auxiliaries : List (Auxiliary α)) :
    (constraints.mapIdx (equation auxiliaries)).map (·.name) = sources.map (·.name) := by
  calc (constraints.mapIdx (equation auxiliaries)).map (·.name)
      = constraints.map (·.name) := 
        List.ext_getElem? fun i => by simp [Function.comp_def, equation]
    _ = sources.map (·.name) := by
        induction rows with
        | nil => rfl
        | cons first _ ih => rw [List.map_cons, List.map_cons, first.name, ih]

theorem map_coefficients_equation :
    (constraints.mapIdx (equation (auxiliaryColumns constraints))).map (·.coefficients) =
      sources.mapIdx fun row source =>
        (columns.map (fun c => Column.structural c.index c.scale) ++
          (auxiliaryColumns constraints).map Auxiliary.column).map (Column.entry source row) := by
  rw [map_mapIdx]
  refine mapIdx_eq_of_forall₂ rows fun row constraint source isRow => ?_
  rw [equation, isRow.coefficients, List.map_append, List.map_map, List.map_map]
  refine congrArg _ (List.map_congr_left fun auxiliary listed => ?_)
  exact (entry_auxiliary listed source row).symm

end Equations

/-- The standard form has the columns and rows that the problem asks for. The rows with a negative
right side are the ones that have been turned around. -/
theorem hasMatrix_ofEliminations (laws : MultiplicationLaws α) {problem : Problem α β}
    {chosen : List (Elimination α)} (eliminated : eliminations problem = .ok chosen) :
    (ofEliminations problem chosen).HasMatrix problem.replacements
      (List.zipWith SourceRow.turned problem.sourceRows
        ((inequalities problem chosen).map fun c => decide (c.rhs < 0)))
      problem.minimizedCosts := by
  have rows := forall₂_oriented laws (inequalities_rows laws eliminated)
  have auxiliaries := auxiliaryColumns_eq_auxiliaries rows
  rw [← structuralColumns_eq_replacements laws eliminated]
  exact {
    columns := by
      rw [← auxiliaries, List.map_map]
      rfl
    names := by
      rw [← auxiliaries, List.map_map]
      rfl
    rowNames := map_name_equation rows _
    coefficients := map_coefficients_equation rows
    costs := by
      simp only [ofEliminations, List.map_append, List.map_map]
      refine congrArg _ (List.map_congr_left fun auxiliary listed => ?_)
      exact (cost_auxiliary listed _).symm }

theorem exists_hasMatrix (laws : MultiplicationLaws α) {problem : Problem α β}
    {form : StandardForm α β} (returned : problem.normalize.result = .ok form) :
    ∃ negative : List Bool, negative.length = problem.sourceRows.length ∧
      form.HasMatrix problem.replacements
        (List.zipWith SourceRow.turned problem.sourceRows negative) problem.minimizedCosts := by
  obtain ⟨_, chosen, eliminated, rfl⟩ := Problem.normalize_eq_ok_iff.mp returned
  refine ⟨_, ?_, hasMatrix_ofEliminations laws eliminated⟩
  exact (List.length_map _).trans (inequalities_rows laws eliminated).length_eq

/-- The bookkeeping is right if a scalar that is no number is one of the infinities or NaN. -/
theorem describes_of_normalize (laws : MultiplicationLaws α)
    (infinite : ∀ x : β, Endpoint.finite? x = none →
      Endpoint.isNaN x = true ∨ (x == Endpoint.negInf) = true ∨ (x == Endpoint.posInf) = true)
    {problem : Problem α β} {form : StandardForm α β}
    (returned : problem.normalize.result = .ok form) : form.Describes problem := by
  obtain ⟨chosen, same⟩ := Problem.normalize_ofEliminations returned
  exact {
    width := by simp [same, ofEliminations, Problem.numVariables]
    equations := same ▸ equationForm_ofEliminations problem chosen
    ends := by
      intro bounds member
      -- Bounds beyond the infinity of the other side have no elimination.
      have sound := (Problem.exists_normalize_iff.mp ⟨_, returned⟩).2 bounds member
      simp only [Bounds.isMalformed, Bool.or_eq_true, not_or] at sound
      obtain ⟨⟨⟨⟨lowNumber, highNumber⟩, low⟩, high⟩, _⟩ := sound
      constructor
      · intro none
        obtain nan | negative | positive := infinite _ none
        · exact absurd nan lowNumber
        · exact negative
        · exact absurd positive low
      · intro none
        obtain nan | negative | positive := infinite _ none
        · exact absurd nan highNumber
        · exact absurd negative high
        · exact positive
    matrix := exists_hasMatrix laws returned }

end StandardForm

theorem float_multiplicationLaws : StandardForm.MultiplicationLaws Float where
  mul_comm := float_mul_comm
  mul_one := float_mul_one
  neg_mul := float_neg_mul
  zero_not_pos _ := float_zero_not_pos

theorem rat_multiplicationLaws : StandardForm.MultiplicationLaws Rat where
  mul_comm := mul_comm
  mul_one := mul_one
  neg_mul := neg_mul
  zero_not_pos x zero := by
    obtain rfl : x = 0 := eq_of_beq zero
    exact lt_irrefl 0

/-- The bookkeeping of a standard form describes its matrix, with floating-point numbers and with
rational ones. -/
theorem Problem.normalize_describes :
    (∀ (problem : Problem Float Float) (form : StandardForm Float Float),
      problem.normalize.result = .ok form → form.Describes problem) ∧
    ∀ (problem : Problem Rat ExtendedRat) (form : StandardForm Rat ExtendedRat),
      problem.normalize.result = .ok form → form.Describes problem := by
  constructor
  · refine fun problem form => StandardForm.describes_of_normalize float_multiplicationLaws ?_
    intro x none
    have notFinite : x.isFinite = false := by
      simpa [Endpoint.finite?] using none
    by_cases number : x.isNaN = true
    · exact .inl ((endpoint_isNaN x).trans number)
    · obtain rfl | rfl := float_eq_infinity notFinite (Bool.eq_false_iff.mpr number)
      · exact .inr (.inl (by decide))
      · exact .inr (.inr (by decide))
  · refine fun problem form => StandardForm.describes_of_normalize rat_multiplicationLaws ?_
    intro x none
    cases x with
    | finite value => cases none
    | negInf => exact .inr (.inl rfl)
    | posInf => exact .inr (.inr rfl)

/-- A free variable, one without a lower end and one between two positive ends. Both rows have a
negative right side when the variables have been replaced. -/
def Problem.threeKinds : Problem Float Float where
  names := ["x", "y", "z"]
  objective := ⟨[1, 2, 3], .maximize⟩
  constraints := [⟨"a", [1, 1, 1], .le, 4⟩, ⟨"b", [2, 0, 1], .le, -3⟩]
  bounds := [.free, ⟨-1 / 0, 5⟩, ⟨1, 2⟩]

theorem Problem.normalize_describes_threeKinds :
    ∃ form, threeKinds.normalize.result = .ok form ∧ form.Describes threeKinds ∧
      form.columns = [.structural 0 1, .structural 0 (-1), .structural 1 (-1), .structural 2 1,
        .surplus 0, .surplus 1, .surplus 2, .slack 3] := by
  have returned : threeKinds.normalize.result = .ok (.ofEliminations threeKinds
      [.split, .substitute 5 (-1) none, .rows (some 1) 2]) := by rfl
  exact ⟨_, returned, normalize_describes.1 threeKinds _ returned, by rfl⟩

end LinOpt
