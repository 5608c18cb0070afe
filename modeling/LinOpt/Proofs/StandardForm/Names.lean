import LinOpt.Proofs.Lp.Meaning
import LinOpt.Proofs.StandardForm.Matrix

/-!
# Names in a standard form

Normalization makes new names out of given ones: the halves of a free variable are called `x'` and
`x''`, the rows of bounds end in `_lower` and `_upper`, and auxiliary columns start with `s_` and
`e_`. The given names are different, but a file may use any of these characters itself, so a new
name can be one that is there already. The names of the standard form are different exactly when no
new name meets a given one in one of three ways.
-/

namespace LinOpt

variable {α β : Type} [Scalar α] [Endpoint β α]

/-! ### Strings -/

theorem append_inj_of_length {first second left right : String}
    (same : first ++ left = second ++ right) (length : left.length = right.length) :
    first = second ∧ left = right := by
  have lists := congrArg String.toList same
  rw [String.toList_append, String.toList_append] at lists
  obtain ⟨before, after⟩ := List.append_inj' lists length
  exact ⟨String.toList_inj.mp before, String.toList_inj.mp after⟩

/-- Two apostrophes are one after another one. -/
theorem append_two_apostrophes (name : String) : name ++ "''" = name ++ "'" ++ "'" := by
  rw [String.append_assoc]
  rfl

theorem append_ne_self {name suffix : String} (filled : suffix ≠ "") : name ++ suffix ≠ name :=
  fun same => filled ((String.append_right_inj name).mp (same.trans String.append_empty.symm))

/-! ### Names derived from other names -/

section Derived

variable {γ : Type} {named : List (String × γ)} (distinct : (named.map Prod.fst).Nodup)
  {derived : String × γ → List String}

include distinct

/-- Names that are derived from different names are different if those of any two names are. -/
theorem nodup_flatMap_iff (own : ∀ x ∈ named, (derived x).Nodup) :
    (named.flatMap derived).Nodup ↔
      ∀ x ∈ named, ∀ y ∈ named, x.1 ≠ y.1 → List.Disjoint (derived x) (derived y) := by
  rw [List.nodup_flatMap, and_iff_right own]
  constructor
  · intro apart x first y second different
    have symmetric : Std.Symm (Function.onFun List.Disjoint derived) :=
      ⟨fun _ _ disjoint => disjoint.symm⟩
    exact apart.forall first second fun same => different (congrArg Prod.fst same)
  · intro apart
    -- Different places have different names, so no place needs to be compared with itself.
    have pairs : named.Pairwise fun x y => x.1 ≠ y.1 := List.pairwise_map.mp distinct
    exact pairs.imp_of_mem fun first second different => apart _ first _ second different

end Derived

theorem map_flatten_mapIdx {γ δ η : Type} {f : Nat → γ → List δ} {g : δ → η} {h : γ → List η}
    (each : ∀ i x, (f i x).map g = h x) (xs : List γ) :
    (xs.mapIdx f).flatten.map g = xs.flatMap h := by
  rw [List.map_flatten, StandardForm.map_mapIdx, List.flatMap_def]
  refine congrArg List.flatten (List.ext_getElem? fun i => ?_)
  simp only [List.getElem?_mapIdx, List.getElem?_map, each]

namespace Bounds

/-- Neither end is finite. -/
def Unbounded (bounds : Bounds β) : Prop :=
  Endpoint.finite? bounds.lower = none ∧ Endpoint.finite? bounds.upper = none

/-- A free variable becomes its halves, and every other one keeps its name. -/
theorem mem_map_replacements_iff {bounds : Bounds β} {name derived : String} :
    derived ∈ bounds.replacements.map (name ++ ·.1) ↔
      bounds.Unbounded ∧ (derived = name ++ "'" ∨ derived = name ++ "''") ∨
        ¬ bounds.Unbounded ∧ derived = name := by
  unfold replacements Unbounded
  cases Endpoint.finite? bounds.lower <;> cases Endpoint.finite? bounds.upper <;> simp

theorem nodup_map_replacements (bounds : Bounds β) (name : String) :
    (bounds.replacements.map (name ++ ·.1)).Nodup := by
  have halves : name ++ "'" ≠ name ++ "''" := by
    rw [append_two_apostrophes]
    exact (append_ne_self (by decide)).symm
  unfold replacements
  cases Endpoint.finite? bounds.lower <;> cases Endpoint.finite? bounds.upper <;> simp [halves]

/-- The rows of bounds have suffixes of the same length. -/
theorem length_of_mem_rowKinds {bounds : Bounds β} {kind : String × Sense}
    (member : kind ∈ bounds.rowKinds) : kind.1.length = 6 := by
  unfold rowKinds at member
  split at member
  · split at member <;> simp at member
    · obtain rfl | rfl := member <;> rfl
    · obtain rfl := member
      rfl
  · cases member

theorem nodup_map_rowKinds (bounds : Bounds β) (name : String) :
    (bounds.rowKinds.map (name ++ ·.1)).Nodup := by
  have ends : name ++ "_lower" ≠ name ++ "_upper" := by
    rw [Ne, String.append_right_inj]
    decide
  unfold rowKinds
  split
  · split <;> simp [ends]
  · exact List.nodup_nil

end Bounds

namespace Problem

variable {problem : Problem α β}

theorem map_name_replacements (problem : Problem α β) :
    problem.replacements.map (·.name) = (problem.names.zip problem.bounds).flatMap fun named =>
      named.2.replacements.map (named.1 ++ ·.1) := by
  rw [replacements]
  refine map_flatten_mapIdx (fun i named => ?_) _
  rw [List.map_map]
  rfl

theorem map_name_sourceRows (problem : Problem α β) :
    problem.sourceRows.map (·.name) = problem.constraints.map (·.name) ++
      (problem.names.zip problem.bounds).flatMap fun named =>
        named.2.rowKinds.map (named.1 ++ ·.1) := by
  rw [sourceRows, List.map_append, List.map_map]
  refine congrArg _ (map_flatten_mapIdx (fun i named => ?_) _)
  rw [List.map_map]
  rfl

/-! ### When the names stay different -/

/-- No variable is called like the first half of a free one, and none that keeps its name is called
like the second half. -/
def HalvesApart (problem : Problem α β) : Prop :=
  ∀ x ∈ problem.names.zip problem.bounds, x.2.Unbounded →
    ∀ y ∈ problem.names.zip problem.bounds,
      y.1 ≠ x.1 ++ "'" ∧ (¬ y.2.Unbounded → y.1 ≠ x.1 ++ "''")

/-- No row has the name of the row of a bound. -/
def BoundRowsApart (problem : Problem α β) : Prop :=
  ∀ x ∈ problem.names.zip problem.bounds, ∀ kind ∈ x.2.rowKinds, ∀ c ∈ problem.constraints,
    c.name ≠ x.1 ++ kind.1

omit [Scalar α] [Endpoint β α] in
theorem nodup_fst_zip (distinct : problem.names.Nodup) (rectangular : problem.Rectangular) :
    ((problem.names.zip problem.bounds).map Prod.fst).Nodup := by
  rwa [List.map_fst_zip rectangular.bounds.ge]

theorem nodup_replacements_iff (distinct : problem.names.Nodup)
    (rectangular : problem.Rectangular) :
    (problem.replacements.map (·.name)).Nodup ↔ problem.HalvesApart := by
  rw [map_name_replacements, nodup_flatMap_iff (nodup_fst_zip distinct rectangular)
    fun x _ => x.2.nodup_map_replacements x.1]
  constructor
  · intro apart x first free y second
    have halves (name : String) (half : name = x.1 ++ "'" ∨ name = x.1 ++ "''") :
        name ∈ x.2.replacements.map (x.1 ++ ·.1) :=
      Bounds.mem_map_replacements_iff.mpr (.inl ⟨free, half⟩)
    constructor
    · intro same
      have different : x.1 ≠ y.1 := same ▸ (append_ne_self (by decide)).symm
      by_cases halved : y.2.Unbounded
      · -- The first half of the one variable is the second half of the other.
        have half : y.1 ++ "'" = x.1 ++ "''" := by rw [same, append_two_apostrophes]
        exact apart x first y second different (halves _ (.inr half))
          (Bounds.mem_map_replacements_iff.mpr (.inl ⟨halved, .inl rfl⟩))
      · exact apart x first y second different (halves _ (.inl same))
          (Bounds.mem_map_replacements_iff.mpr (.inr ⟨halved, rfl⟩))
    · intro whole same
      have different : x.1 ≠ y.1 := same ▸ (append_ne_self (by decide)).symm
      exact apart x first y second different (halves _ (.inr same))
        (Bounds.mem_map_replacements_iff.mpr (.inr ⟨whole, rfl⟩))
  · intro apart x first y second different name left right
    rw [Bounds.mem_map_replacements_iff] at left right
    obtain ⟨free, half⟩ | ⟨whole, rfl⟩ := left
    · obtain ⟨halved, other⟩ | ⟨notHalved, rfl⟩ := right
      · -- The halves of two variables meet if one of them is called like a half of the other.
        have before := (apart x first free y second).1
        have after := (apart y second halved x first).1
        rw [append_two_apostrophes] at half other
        obtain rfl | rfl := half <;> obtain same | same := other <;>
          rw [String.append_left_inj] at same
        · exact different same
        · exact after same
        · exact before same.symm
        · exact different ((String.append_left_inj _).mp same)
      · obtain same | same := half
        · exact (apart x first free y second).1 same
        · exact (apart x first free y second).2 notHalved same
    · obtain ⟨halved, same | same⟩ | ⟨notHalved, same⟩ := right
      · exact (apart y second halved x first).1 same
      · exact (apart y second halved x first).2 whole same
      · exact different same

theorem nodup_sourceRows_iff (distinct : problem.names.Nodup)
    (rows : (problem.constraints.map (·.name)).Nodup) (rectangular : problem.Rectangular) :
    (problem.sourceRows.map (·.name)).Nodup ↔ problem.BoundRowsApart := by
  have boundRows : ((problem.names.zip problem.bounds).flatMap fun named =>
      named.2.rowKinds.map (named.1 ++ ·.1)).Nodup := by
    rw [nodup_flatMap_iff (nodup_fst_zip distinct rectangular)
      fun x _ => x.2.nodup_map_rowKinds x.1]
    intro x _ y _ different name left right
    obtain ⟨kind, inside, rfl⟩ := List.mem_map.mp left
    obtain ⟨other, among, same⟩ := List.mem_map.mp right
    -- Suffixes of one length can be split off, and then the names of the variables are the same.
    have length := (Bounds.length_of_mem_rowKinds among).trans
      (Bounds.length_of_mem_rowKinds inside).symm
    exact different (append_inj_of_length same length).1.symm
  rw [map_name_sourceRows, List.nodup_append, and_iff_right rows, and_iff_right boundRows]
  constructor
  · intro apart x member kind inside c listed
    exact apart c.name (List.mem_map_of_mem listed) _
      (List.mem_flatMap.mpr ⟨x, member, List.mem_map_of_mem inside⟩)
  · intro apart name given other added
    obtain ⟨c, listed, rfl⟩ := List.mem_map.mp given
    obtain ⟨x, member, among⟩ := List.mem_flatMap.mp added
    obtain ⟨kind, inside, rfl⟩ := List.mem_map.mp among
    exact apart x member kind inside c listed

end Problem

/-! ### Auxiliary columns -/

namespace SourceRow

section Auxiliaries

omit [Scalar α] [Endpoint β α]

theorem auxiliary?_eq_some_iff {source : SourceRow α} {row : Nat} {named : String × Column α} :
    source.auxiliary? row = some named ↔
      source.sense = .le ∧ named = ("s_" ++ source.name, .slack row) ∨
        source.sense = .ge ∧ named = ("e_" ++ source.name, .surplus row) := by
  unfold auxiliary?
  cases source.sense <;> simp [eq_comm]

theorem mem_auxiliaries_iff {sources : List (SourceRow α)} {named : String × Column α} :
    named ∈ auxiliaries sources ↔
      ∃ (row : Nat) (source : SourceRow α),
        sources[row]? = some source ∧ source.auxiliary? row = some named := by
  rw [auxiliaries, List.mem_filterMap]
  constructor
  · rintro ⟨⟨source, row⟩, place, found⟩
    exact ⟨row, source, List.mem_zipIdx_iff_getElem?.mp place, found⟩
  · rintro ⟨row, source, place, found⟩
    exact ⟨(source, row), List.mem_zipIdx_iff_getElem?.mpr place, found⟩

theorem slack_ne_surplus (first second : String) : "s_" ++ first ≠ "e_" ++ second := by
  intro same
  have lists := congrArg String.toList same
  rw [String.toList_append, String.toList_append] at lists
  exact absurd (List.cons.inj lists).1 (by decide)

/-- Rows with different names have auxiliary columns with different names. -/
theorem nodup_auxiliaries {sources : List (SourceRow α)} (distinct : (sources.map (·.name)).Nodup) :
    ((auxiliaries sources).map Prod.fst).Nodup := by
  have pairs : sources.zipIdx.Pairwise fun left right => left.1.name ≠ right.1.name := by
    rw [← List.zipIdx_map_fst 0 sources, List.map_map] at distinct
    exact List.pairwise_map.mp distinct
  rw [List.Nodup, List.pairwise_map, auxiliaries, List.pairwise_filterMap]
  refine pairs.imp fun {left right} different first created second other same => different ?_
  -- Behind equal marks stand the names of the rows, and slacks and surpluses start differently.
  obtain ⟨-, rfl⟩ | ⟨-, rfl⟩ := auxiliary?_eq_some_iff.mp created <;>
    obtain ⟨-, rfl⟩ | ⟨-, rfl⟩ := auxiliary?_eq_some_iff.mp other
  · exact (String.append_right_inj _).mp same
  · exact absurd same (slack_ne_surplus _ _)
  · exact absurd same.symm (slack_ne_surplus _ _)
  · exact (String.append_right_inj _).mp same

end Auxiliaries

omit [Endpoint β α] in
/-- Turning rows around keeps their names. -/
theorem map_name_turned {sources : List (SourceRow α)} {negative : List Bool}
    (length : negative.length = sources.length) :
    (List.zipWith turned sources negative).map (·.name) = sources.map (·.name) := by
  induction sources generalizing negative with
  | nil => rfl
  | cons source sources ih =>
    cases negative with
    | nil => cases length
    | cons first negative =>
      exact congrArg (source.name :: ·) (ih (Nat.succ_injective length))

end SourceRow

namespace StandardForm

/-- No structural column has the name of the auxiliary column of a row. -/
def AuxiliariesApart (form : StandardForm α β) (structurals : List (Structural α)) : Prop :=
  ∀ row c, form.problem.constraints[row]? = some c → ∀ structural ∈ structurals,
    (.slack row ∈ form.columns → structural.name ≠ "s_" ++ c.name) ∧
      (.surplus row ∈ form.columns → structural.name ≠ "e_" ++ c.name)

namespace HasMatrix

variable {form : StandardForm α β} {structurals : List (Structural α)}
  {sources : List (SourceRow α)} {costs : List α}
  (matrix : form.HasMatrix structurals sources costs)

omit [Endpoint β α]

include matrix

/-- The rows of the standard form have the names of the sources. -/
theorem name_eq {row : Nat} {c : Constraint α} (place : form.problem.constraints[row]? = some c)
    {source : SourceRow α} (from_source : sources[row]? = some source) : c.name = source.name := by
  have names := congrArg (·[row]?) matrix.rowNames
  simpa [place, from_source] using names

/-- A row has one of the auxiliary columns among the columns if it has it among the sources. -/
theorem mem_auxiliaries_iff {row : Nat} {c : Constraint α}
    (place : form.problem.constraints[row]? = some c) {mark : String} {column : Column α}
    (auxiliary : mark = "s_" ∧ column = .slack row ∨ mark = "e_" ∧ column = .surplus row) :
    (mark ++ c.name, column) ∈ SourceRow.auxiliaries sources ↔ column ∈ form.columns := by
  rw [matrix.columns, List.mem_append, List.mem_map, List.mem_map]
  constructor
  · intro member
    exact .inr ⟨_, member, rfl⟩
  · rintro (⟨structural, _, same⟩ | ⟨named, member, rfl⟩)
    · obtain ⟨_, rfl⟩ | ⟨_, rfl⟩ := auxiliary <;> cases same
    · -- A column for the same row comes from the same source.
      obtain ⟨other, source, found, created⟩ := SourceRow.mem_auxiliaries_iff.mp member
      obtain ⟨rfl, same⟩ | ⟨rfl, same⟩ := auxiliary <;>
        obtain ⟨_, rfl⟩ | ⟨_, rfl⟩ := SourceRow.auxiliary?_eq_some_iff.mp created <;> cases same <;>
        exact matrix.name_eq place found ▸ member

theorem nodup_names_iff (distinct : (sources.map (·.name)).Nodup) :
    form.problem.names.Nodup ↔
      (structurals.map (·.name)).Nodup ∧ form.AuxiliariesApart structurals := by
  rw [matrix.names, List.nodup_append, and_iff_right (SourceRow.nodup_auxiliaries distinct)]
  refine and_congr_right fun _ => ⟨fun apart row c place structural member => ?_, ?_⟩
  · have slack := (matrix.mem_auxiliaries_iff place (.inl ⟨rfl, rfl⟩)).mpr
    have surplus := (matrix.mem_auxiliaries_iff place (.inr ⟨rfl, rfl⟩)).mpr
    constructor
    · intro among
      exact apart _ (List.mem_map_of_mem member) _ (List.mem_map_of_mem (slack among))
    · intro among
      exact apart _ (List.mem_map_of_mem member) _ (List.mem_map_of_mem (surplus among))
  · intro apart name left other right
    obtain ⟨structural, member, rfl⟩ := List.mem_map.mp left
    obtain ⟨named, among, rfl⟩ := List.mem_map.mp right
    obtain ⟨row, source, found, created⟩ := SourceRow.mem_auxiliaries_iff.mp among
    -- The row of the source is a row of the standard form, so its column has been compared.
    obtain ⟨c, place, called⟩ : ∃ c, form.problem.constraints[row]? = some c ∧
        c.name = source.name := by
      have names := congrArg (·[row]?) matrix.rowNames
      simpa [found] using names
    obtain ⟨slack, surplus⟩ := apart row c place structural member
    obtain ⟨_, rfl⟩ | ⟨_, rfl⟩ := SourceRow.auxiliary?_eq_some_iff.mp created <;>
      rw [← called] at among ⊢
    · exact slack ((matrix.mem_auxiliaries_iff place (.inl ⟨rfl, rfl⟩)).mp among)
    · exact surplus ((matrix.mem_auxiliaries_iff place (.inr ⟨rfl, rfl⟩)).mp among)

end HasMatrix

/-- New names meet neither given ones nor each other. -/
structure NamesApart (form : StandardForm α β) (problem : Problem α β) : Prop where
  halves : problem.HalvesApart
  boundRows : problem.BoundRowsApart
  auxiliaries : form.AuxiliariesApart problem.replacements

/-- Different names stay different exactly if new names stay apart. -/
theorem nodup_iff_namesApart (laws : MultiplicationLaws α) {problem : Problem α β}
    {form : StandardForm α β} (returned : problem.normalize.result = .ok form)
    (names : problem.names.Nodup) (rows : (problem.constraints.map (·.name)).Nodup) :
    form.problem.names.Nodup ∧ (form.problem.constraints.map (·.name)).Nodup ↔
      form.NamesApart problem := by
  have rectangular := (Problem.normalize_eq_ok_iff.mp returned).1
  obtain ⟨negative, length, matrix⟩ := exists_hasMatrix laws returned
  have called := SourceRow.map_name_turned length
  have boundRows := Problem.nodup_sourceRows_iff names rows rectangular
  have halves := Problem.nodup_replacements_iff names rectangular
  rw [matrix.rowNames, called]
  constructor
  · rintro ⟨columns, distinct⟩
    obtain ⟨structurals, auxiliaries⟩ := (matrix.nodup_names_iff (called ▸ distinct)).mp columns
    exact ⟨halves.mp structurals, boundRows.mp distinct, auxiliaries⟩
  · intro apart
    have distinct := boundRows.mpr apart.boundRows
    exact ⟨(matrix.nodup_names_iff (called ▸ distinct)).mpr
      ⟨halves.mpr apart.halves, apart.auxiliaries⟩, distinct⟩

end StandardForm

namespace Lp

/-- A source that compiles has different variables and different rows. -/
theorem compileSource_nodup {source : String} {model : Model α β}
    (compiled : (compileSource source).result = .ok model) :
    model.problem.names.Nodup ∧ (model.problem.constraints.map (·.name)).Nodup := by
  rw [compileSource, Logged.result_bind, Logged.result_mapError] at compiled
  cases read : (parse source : Logged (Event α) ParseError (File α β)).result with
  | error reason =>
    rw [read] at compiled
    cases compiled
  | ok file =>
    rw [read] at compiled
    obtain ⟨compiles, rfl⟩ := compile_eq_ok_iff.mp compiled
    exact ⟨file.numbering.distinct, compiles.distinct⟩

/-- The names of the variables and of the rows of the standard form of a source. -/
def standardNames? (source : String) : Option (List String × List String) :=
  match (compileSource source : Logged (Event Float) CompileError (Model Float Float)).result with
  | .ok model => match model.problem.normalize.result with
    | .ok form => some (form.problem.names, form.problem.constraints.map (·.name))
    | .error _ => none
  | .error _ => none

theorem exists_of_standardNames? {source : String} {names rows : List String}
    (found : standardNames? source = some (names, rows)) :
    ∃ (model : Model Float Float) (form : StandardForm Float Float),
      (compileSource source).result = .ok model ∧ model.problem.normalize.result = .ok form ∧
        form.problem.names = names ∧ form.problem.constraints.map (·.name) = rows := by
  unfold standardNames? at found
  split at found
  next model compiled =>
    split at found
    next form normalized =>
      simp only [Option.some.injEq, Prod.mk.injEq] at found
      exact ⟨model, form, compiled, normalized, found.1, found.2⟩
    · cases found
  · cases found

/-- A source that compiles has different variables and different rows. Its standard form has them
too if and only if the names that normalization makes stay apart: no variable is called like a half
of a free one, no row like the row of a bound, and no structural column like the auxiliary column
of a row. -/
theorem normalized_names_distinct_iff {source : String} {model : Model Float Float}
    {form : StandardForm Float Float} (compiled : (compileSource source).result = .ok model)
    (normalized : model.problem.normalize.result = .ok form) :
    model.problem.names.Nodup ∧ (model.problem.constraints.map (·.name)).Nodup ∧
      (form.problem.names.Nodup ∧ (form.problem.constraints.map (·.name)).Nodup ↔
        form.NamesApart model.problem) := by
  obtain ⟨names, rows⟩ := compileSource_nodup compiled
  exact ⟨names, rows,
    StandardForm.nodup_iff_namesApart float_multiplicationLaws normalized names rows⟩

/-- All kinds of names occur, and none of them twice. -/
def clearNames : String :=
  "max\n x - y\nst\n a: x + y <= 4\n b: x >= -2\nbounds\n y free\n 1 <= x <= 3\nend\n"

theorem normalized_names_distinct_iff_clearNames :
    ∃ (model : Model Float Float) (form : StandardForm Float Float),
      (compileSource clearNames).result = .ok model ∧ model.problem.normalize.result = .ok form ∧
        form.problem.names = ["x", "y'", "y''", "s_a", "s_b", "e_x_lower", "s_x_upper"] ∧
        form.problem.constraints.map (·.name) = ["a", "b", "x_lower", "x_upper"] ∧
        form.NamesApart model.problem := by
  obtain ⟨model, form, compiled, normalized, columns, rows⟩ :=
    exists_of_standardNames? (by decide +kernel : standardNames? clearNames =
      some (["x", "y'", "y''", "s_a", "s_b", "e_x_lower", "s_x_upper"],
        ["a", "b", "x_lower", "x_upper"]))
  refine ⟨model, form, compiled, normalized, columns, rows, ?_⟩
  obtain ⟨_, _, distinct_iff⟩ := normalized_names_distinct_iff compiled normalized
  exact distinct_iff.mp ⟨columns ▸ by decide, rows ▸ by decide⟩

/-- A variable called like a half, one called like a slack and a row called like the row of a bound
each make two names of the standard form the same. -/
theorem normalized_names_meet :
    (∃ (model : Model Float Float) (form : StandardForm Float Float),
      (compileSource "min\n x' + x\nst\n a: x' >= 1\nbounds\n x free\nend\n").result =
          .ok model ∧
        model.problem.normalize.result = .ok form ∧ ¬ form.problem.names.Nodup) ∧
    (∃ (model : Model Float Float) (form : StandardForm Float Float),
      (compileSource "min\n x + s_a\nst\n a: x + s_a <= 1\nend\n").result = .ok model ∧
        model.problem.normalize.result = .ok form ∧ ¬ form.problem.names.Nodup) ∧
    ∃ (model : Model Float Float) (form : StandardForm Float Float),
      (compileSource "min\n x\nst\n x_upper: x <= 1\nbounds\n x <= 4\nend\n").result =
          .ok model ∧
        model.problem.normalize.result = .ok form ∧
        ¬ (form.problem.constraints.map (·.name)).Nodup := by
  refine ⟨?_, ?_, ?_⟩
  · obtain ⟨model, form, compiled, normalized, columns, _⟩ := exists_of_standardNames?
      (by decide +kernel : standardNames?
        "min\n x' + x\nst\n a: x' >= 1\nbounds\n x free\nend\n" =
          some (["x'", "x'", "x''", "e_a"], ["a"]))
    exact ⟨model, form, compiled, normalized, columns ▸ by decide⟩
  · obtain ⟨model, form, compiled, normalized, columns, _⟩ := exists_of_standardNames?
      (by decide +kernel : standardNames?
        "min\n x + s_a\nst\n a: x + s_a <= 1\nend\n" = some (["x", "s_a", "s_a"], ["a"]))
    exact ⟨model, form, compiled, normalized, columns ▸ by decide⟩
  · obtain ⟨model, form, compiled, normalized, _, rows⟩ := exists_of_standardNames?
      (by decide +kernel : standardNames?
        "min\n x\nst\n x_upper: x <= 1\nbounds\n x <= 4\nend\n" =
          some (["x", "s_x_upper", "s_x_upper"], ["x_upper", "x_upper"]))
    exact ⟨model, form, compiled, normalized, rows ▸ by decide⟩

end Lp

end LinOpt
