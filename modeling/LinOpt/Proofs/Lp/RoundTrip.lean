import LinOpt.Proofs.Lp.Meaning
import LinOpt.Proofs.Lp.Recognition
import LinOpt.Proofs.Problem.Equality

/-!
# From problems to texts and back

The text of a problem compiles to the problem again: the variables are met in their order, each
coefficient is the only one of its variable, and the bounds that are not written are the usual ones.
Numbers come back equal, though a zero may change its sign.
-/

namespace LinOpt.Lp

open Lexer

/-! ### Entries with keys -/

/-- Entries with different keys are found by their keys. -/
theorem filter_key {ι κ : Type} [DecidableEq κ] {key : ι → κ} {xs : List ι}
    (distinct : (xs.map key).Nodup) {x : ι} (member : x ∈ xs) :
    xs.filter (key · = key x) = [x] := by
  induction xs with
  | nil => cases member
  | cons y xs ih =>
    rw [List.map_cons, List.nodup_cons] at distinct
    obtain rfl | inside := List.mem_cons.mp member
    · have others : xs.filter (key · = key x) = [] := by
        rw [List.filter_eq_nil_iff]
        intro y among same
        exact distinct.1 (List.mem_map.mpr ⟨y, among, by simpa using same⟩)
      simp [others]
    · have other : key y ≠ key x := by
        intro same
        exact distinct.1 (List.mem_map.mpr ⟨x, inside, same.symm⟩)
      simp [other, ih distinct.2 inside]

/-! ### Coefficients -/

theorem coefficientOf_eq (terms : List (Term Float)) (name : String) :
    coefficientOf terms name =
      ((terms.map Term.pair).filter (·.2 = name)).foldl (fun sum pair => sum + pair.1) 0 := by
  simp only [List.foldl_filter, List.foldl_map, Term.pair, decide_eq_true_eq]
  rfl

/-- A row of numbers comes back from its terms. -/
theorem coefficients_beq {row : List Float} {names : List String} (distinct : names.Nodup)
    (length : row.length = names.length) (number : ∀ c ∈ row, c.isNaN = false)
    {terms : List (Term Float)} (pairs : terms.map Term.pair = nonzeroTerms row names) :
    (names.map (coefficientOf terms) == row) = true := by
  have keys : ((row.zip names).map (·.2)).Nodup := by
    rwa [List.map_snd_zip length.ge]
  have entry (c : Float) (name : String) (member : (c, name) ∈ row.zip names) :
      (coefficientOf terms name == c) = true := by
    have only : (nonzeroTerms row names).filter (·.2 = name) =
        [(c, name)].filter fun term => !(term.1 == 0) := by
      rw [nonzeroTerms, List.filter_comm, filter_key keys member]
    rw [coefficientOf_eq, pairs, only]
    -- A zero has no term; any other coefficient is in the only term of its variable.
    cases zero : c == 0 with
    | true =>
      have skipped : [(c, name)].filter (fun term => !(term.1 == 0)) = [] := by simp [zero]
      rw [skipped]
      exact (float_beq_comm _ _).trans zero
    | false =>
      have kept : [(c, name)].filter (fun term => !(term.1 == 0)) = [(c, name)] := by
        simp [zero]
      rw [kept, List.foldl_cons, List.foldl_nil, zero_add_float zero]
      exact float_beq_self (number c (List.of_mem_zip member).1)
  apply beq_of_forall₂
  rw [List.forall₂_map_left_iff]
  apply List.Forall₂.flip
  exact List.forall₂_iff_zip.mpr ⟨length, fun {c name} member => entry c name member⟩

/-! ### Rows -/

/-- What each row has in common with the one that states it again holds of the rows in parallel. -/
theorem forall₂_rows {names : List String} {S : ConstraintStatement Float → Constraint Float → Prop}
    {R : Constraint Float → Constraint Float → Prop}
    {statements : List (ConstraintStatement Float)} {rows : List (Constraint Float)}
    (related : List.Forall₂ S statements rows) (step : ∀ statement, ∀ row ∈ rows,
      S statement row → ∀ place, R (statedRow names statement place) row) (place : Nat) :
    List.Forall₂ R (statedRows names place statements) rows := by
  induction related generalizing place with
  | nil => exact .nil
  | @cons statement row statements rows first _ ih =>
    rw [statedRows_cons]
    apply List.Forall₂.cons (step statement row List.mem_cons_self first place)
    exact ih (fun statement row member => step statement row (List.mem_cons_of_mem _ member)) _

/-! ### Bounds -/

/-- The bounds of a variable come back, whether they have been written or not. -/
theorem boundsOf_beq {names : List String} {bounds : List (Bounds Float)}
    (distinct : names.Nodup) (length : bounds.length = names.length)
    {statements : List (BoundStatement Float)}
    (repeats : List.Forall₂ BoundStatement.Repeats statements
      ((names.zip bounds).filter fun (_, bounds) => !bounds.isNonNegative))
    {name : String} {bound : Bounds Float} (member : (name, bound) ∈ names.zip bounds)
    (number : bound.lower.isNaN = false ∧ bound.upper.isNaN = false) :
    (boundsOf statements name .nonNegative == bound) = true := by
  have keys : ((names.zip bounds).map (·.1)).Nodup := by
    rwa [List.map_fst_zip length.ge]
  have filtered : List.Forall₂ BoundStatement.Repeats (statements.filter (·.name = name))
      ([(name, bound)].filter fun (_, bounds) => !bounds.isNonNegative) := by
    rw [← filter_key keys member, List.filter_comm]
    apply List.rel_filter _ repeats
    intro statement bounded same
    simp [same.name]
  rw [boundsOf]
  -- Usual bounds have no statement; others are in the only statement about their variable.
  cases usual : bound.isNonNegative with
  | true =>
    have unbounded : statements.filter (·.name = name) = [] := by
      simpa [usual] using filtered
    obtain ⟨lower, upper⟩ := Bool.and_eq_true_iff.mp usual
    rw [unbounded]
    exact bounds_beq ((float_beq_comm _ _).trans lower) ((float_beq_comm _ _).trans upper)
  | false =>
    have kept : [(name, bound)].filter (fun (_, bounds) => !bounds.isNonNegative) =
        [(name, bound)] := by simp [usual]
    rw [kept, List.forall₂_cons_right_iff] at filtered
    obtain ⟨statement, _, said, nothing, only⟩ := filtered
    obtain rfl := List.forall₂_nil_right_iff.mp nothing
    rw [only, List.foldl_cons, List.foldl_nil, said.apply]
    cases free : bound.isFree with
    | true =>
      obtain ⟨lower, upper⟩ := Bool.and_eq_true_iff.mp free
      exact bounds_beq ((float_beq_comm _ _).trans lower) ((float_beq_comm _ _).trans upper)
    | false => exact bounds_beq (float_beq_self number.1) (float_beq_self number.2)

/-! ### Files -/

namespace File.Repeats

variable {problem : Problem Float Float} {file : File Float Float}

theorem occurrences (repeats : file.Repeats problem) :
    file.terms.map (·.name) = problem.occurrences := by
  have row {terms : List (Term Float)} {coefficients : List Float}
      (pairs : terms.map Term.pair = nonzeroTerms coefficients problem.names) :
      terms.map (·.name) = (nonzeroTerms coefficients problem.names).map (·.2) := by
    rw [← pairs, List.map_map]
    rfl
  have rows : (file.constraints.flatMap (·.terms)).map (·.name) =
      (problem.constraints.map (·.coefficients)).flatMap fun row =>
        (nonzeroTerms row problem.names).map (·.2) := by
    have all := repeats.constraints
    generalize file.constraints = statements, problem.constraints = constraints at all
    induction all with
    | nil => rfl
    | cons first _ ih =>
      rw [List.flatMap_cons, List.map_append, ih, row first.terms, List.map_cons, List.flatMap_cons]
  rw [File.terms, List.map_append, rows, row repeats.terms]
  rfl

/-- The variables are met in their order. -/
theorem names (repeats : file.Repeats problem) (printable : problem.Printable) :
    file.numbering.names = problem.names := by
  have met := file.firstOccurrences_names
  rw [repeats.occurrences] at met
  exact met.unique printable.ordered

/-- A row comes back with its name, wherever it stands. -/
theorem row_beq (printable : problem.Printable) {statement : ConstraintStatement Float}
    {row : Constraint Float} (member : row ∈ problem.constraints)
    (said : statement.Repeats problem.names row) (place : Nat) :
    (statedRow problem.names statement place).name = row.name ∧
      (statedRow problem.names statement place == row) = true := by
  have among : row.coefficients ∈ problem.expressions :=
    List.mem_cons_of_mem _ (List.mem_map_of_mem member)
  have name : (statedRow problem.names statement place).name = row.name := by
    simp [statedRow, said.name]
  have coefficients := coefficients_beq printable.ordered.distinct
    (printable.length_expression among) (printable.number among) said.terms
  have rhs : (statement.rhs == row.rhs) = true := by
    rw [said.rhs]
    exact float_beq_self (float_isNaN_of_isFinite (printable.finite_rhs member))
  exact ⟨name, constraint_beq name coefficients said.sense rhs⟩

theorem rows (repeats : file.Repeats problem) (printable : problem.Printable) :
    List.Forall₂ (fun stated row => stated.name = row.name ∧ (stated == row) = true)
      (statedRows problem.names 0 file.constraints) problem.constraints :=
  forall₂_rows repeats.constraints (fun _ _ member said => row_beq printable member said) 0

theorem compiles (repeats : file.Repeats problem) (printable : problem.Printable) :
    file.Compiles := by
  have names := repeats.names printable
  constructor
  case distinct =>
    have same : (statedRows problem.names 0 file.constraints).map (·.name) =
        problem.constraints.map (·.name) :=
      map_eq_map_iff.mpr ((repeats.rows printable).imp fun _ _ related => related.1)
    rw [File.stated, names, same]
    exact printable.distinct
  case known =>
    have same : file.bounds.map (·.name) = problem.bounded.map (·.1) :=
      map_eq_map_iff.mpr (repeats.bounds.imp fun _ _ said => said.name)
    intro statement member
    have inside : statement.name ∈ file.bounds.map (·.name) := List.mem_map_of_mem member
    rw [same] at inside
    obtain ⟨bounded, among, name⟩ := List.mem_map.mp inside
    rw [names, ← name]
    exact (List.of_mem_zip (List.mem_filter.mp among).1).1

theorem stated_beq (repeats : file.Repeats problem) (printable : problem.Printable) :
    (file.stated == problem) = true := by
  have names := repeats.names printable
  have rectangular := Problem.validate_eq_ok_iff.mp printable.valid
  have distinct := printable.ordered.distinct
  have objective : (⟨problem.names.map (coefficientOf file.objective.terms),
      file.objective.goal⟩ == problem.objective) = true :=
    objective_beq (coefficients_beq distinct rectangular.costs
      (printable.number List.mem_cons_self) repeats.terms) repeats.goal
  have rows : (statedRows problem.names 0 file.constraints == problem.constraints) = true :=
    beq_of_forall₂ ((repeats.rows printable).imp fun _ _ related => related.2)
  have bounds : (problem.names.map (boundsOf file.bounds · .nonNegative) == problem.bounds) =
      true := by
    apply beq_of_forall₂
    rw [List.forall₂_map_left_iff, List.forall₂_iff_zip]
    constructor
    · exact rectangular.bounds.symm
    · intro name bound member
      exact boundsOf_beq distinct rectangular.bounds repeats.bounds member
        (printable.bounds bound (List.of_mem_zip member).2)
  exact problem_beq names (by rwa [File.stated, names]) (by rwa [File.stated, names])
    (by rwa [File.stated, names])

end File.Repeats

/-- The text of a problem compiles to an equal problem, if its finite numbers are read back from
their texts. -/
theorem compileSource_text (problem : Problem Float Float) (printable : problem.Printable)
    (back : ∀ x ∈ problem.numbers, x.isFinite = true → ReadsBack x) :
    ∃ model, (compileSource problem.text).result = .ok model ∧
      (model.problem == problem) = true := by
  obtain ⟨sound, same⟩ := printable.readAs_text back
  obtain ⟨parts, file, all, reads, repeats⟩ := printable.exists_sections back same
  have read : (parse problem.text).result = .ok file :=
    parse_eq_ok_iff.mpr ⟨sound, parts, all, reads⟩
  have compiled := compile_eq_ok_iff.mpr ⟨repeats.compiles printable, rfl⟩
  refine ⟨⟨file.objective.name?.getD "obj", file.stated⟩, ?_, repeats.stated_beq printable⟩
  rw [compileSource, Logged.result_bind, Logged.result_mapError, read]
  exact compiled

/-- Its rows are called like keywords, a variable like the sign of an exponent and another one like
the second word of a keyword. -/
def cargo : Problem Float Float where
  names := ["x", "e", "to"]
  objective := ⟨[-1, 3, 0], .maximize⟩
  constraints := [⟨"st", [1, 2.5, 0], .le, 40⟩, ⟨"end", [0, 1, -1], .ge, -0.5⟩]
  bounds := [⟨-1 / 0, 3⟩, .free, .nonNegative]

theorem compileSource_text_cargo : cargo.textLines =
      ["maximize", "  - x + 3 e", "subject to", "  st: x + 2.5 e <= 40", "  end: e - to >= -0.5",
        "bounds", "  -inf <= x <= 3", "  e free", "end"] ∧
    cargo.Printable ∧ (∀ x ∈ cargo.numbers, x.isFinite = true → ReadsBack x) ∧
    ∃ model, (compileSource cargo.text).result = .ok model ∧ (model.problem == cargo) = true := by
  have word (name : String) (among : name ∈ ["x", "e", "to", "st", "end"]) : IsName name := by
    simp only [List.mem_cons, List.not_mem_nil, or_false] at among
    obtain rfl | rfl | rfl | rfl | rfl := among <;> exact isName_of_letters (by decide) (by decide)
  have occurrences : cargo.occurrences = ["x", "e", "x", "e", "e", "to"] := by decide +kernel
  have printable : cargo.Printable := by
    constructor
    case valid => rfl
    case names =>
      intro name among
      obtain rfl | rfl | rfl : name = "x" ∨ name = "e" ∨ name = "to" := by
        simpa [cargo] using among
      all_goals
        refine ⟨word _ (by simp), ?_⟩
        rw [IsReserved, map_toLower rfl]
        decide
    case rowNames =>
      intro row among
      obtain rfl | rfl : row = ⟨"st", _, _, _⟩ ∨ row = ⟨"end", _, _, _⟩ := by
        simpa only [cargo, List.mem_cons, List.not_mem_nil, or_false] using among
      · exact word _ (by simp)
      · exact word _ (by simp)
    case distinct => decide
    case finite => decide +kernel
    case bounds => decide +kernel
    case filled => decide +kernel
    case ordered =>
      rw [occurrences]
      exact ⟨by decide, by simp [cargo]; grind, by decide⟩
  have back : ∀ x ∈ cargo.numbers, x.isFinite = true → ReadsBack x := by
    unfold ReadsBack
    decide +kernel
  constructor
  · decide +kernel
  · exact ⟨printable, back, compileSource_text cargo printable back⟩

end LinOpt.Lp
