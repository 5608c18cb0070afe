import LinOpt.Proofs.Dense.Products
import LinOpt.Proofs.Lp.Numbering
import LinOpt.Proofs.Problem.Feasible
import LinOpt.Proofs.Results

/-!
# The meaning of a file

A file compiles to a problem exactly when its rows have different names and its bounds name
variables that its terms name. The problem then says what the file says: over exact numbers each
row adds up the terms of its constraint at every valuation of the names, and the bounds of a
variable are what the statements that name it leave of the standard bounds.
-/

namespace LinOpt.Lp

variable {α β : Type} [Scalar α] [Endpoint β α]

/-- The bounds of a variable after the statements that name it, from the first to the last. -/
def boundsOf (statements : List (BoundStatement β)) (name : String) (bounds : Bounds β) :
    Bounds β :=
  (statements.filter (·.name = name)).foldl (fun bounds statement => statement.kind.apply bounds)
    bounds

/-- The row that a constraint at a place states. -/
def statedRow (names : List String) (statement : ConstraintStatement α) (place : Nat) :
    Constraint α where
  name := statement.name?.getD s!"c{place}"
  coefficients := names.map (coefficientOf statement.terms)
  sense := statement.sense
  rhs := statement.rhs

/-- The rows that constraints state, the first of them at the given place. -/
def statedRows (names : List String) (place : Nat) (statements : List (ConstraintStatement α)) :
    List (Constraint α) :=
  (statements.zipIdx place).map fun (statement, i) => statedRow names statement i

theorem statedRows_cons (names : List String) (place : Nat) (statement : ConstraintStatement α)
    (rest : List (ConstraintStatement α)) :
    statedRows names place (statement :: rest) =
      statedRow names statement place :: statedRows names (place + 1) rest := rfl

/-- The problem that a file states, in terms of the names of its variables. -/
def File.stated (file : File α β) : Problem α β where
  names := file.numbering.names
  objective :=
    ⟨file.numbering.names.map (coefficientOf file.objective.terms), file.objective.goal⟩
  constraints := statedRows file.numbering.names 0 file.constraints
  bounds := file.numbering.names.map (boundsOf file.bounds · .nonNegative)

namespace Numbering

variable {numbering : Numbering}

omit [Endpoint β α] in
theorem addConstraints_eq_ok_iff {statements : List (ConstraintStatement α)}
    (known : ∀ s ∈ statements, ∀ term ∈ s.terms, term.name ∈ numbering.names) {place : Nat}
    {taken : List String} {problem result : Problem α β} :
    numbering.addConstraints place taken problem statements = .ok result ↔
      ((statedRows numbering.names place statements).map (·.name)).Nodup ∧
        (∀ row ∈ statedRows numbering.names place statements, row.name ∉ taken) ∧
        result = { problem with
          constraints := problem.constraints ++ statedRows numbering.names place statements } := by
  induction statements generalizing place taken problem with
  | nil => simp [addConstraints, statedRows, eq_comm]
  | cons statement rest ih =>
    rw [List.forall_mem_cons] at known
    have row : addConstraints numbering place taken problem (statement :: rest) =
        if taken.contains (statedRow numbering.names statement place).name then
          .error (.duplicateConstraint (statedRow numbering.names statement place).name
            statement.line)
        else numbering.addConstraints (place + 1)
          ((statedRow numbering.names statement place).name :: taken)
          (problem.addConstraint (statedRow numbering.names statement place)) rest := by
      rw [addConstraints, row_eq known.1]
      rfl
    rw [row, statedRows_cons]
    generalize statedRow numbering.names statement place = first
    -- A row is rejected if one before it has its name.
    split
    next old =>
      have : first.name ∈ taken := by simpa using old
      simp [this]
    next new =>
      have : first.name ∉ taken := by simpa using new
      rw [ih known.2]
      simp only [List.map_cons, List.nodup_cons, List.mem_cons, not_or, forall_eq_or_imp]
      constructor
      · rintro ⟨distinct, fresh, rfl⟩
        have different : first.name ∉
            (statedRows numbering.names (place + 1) rest).map (·.name) := by
          intro again
          obtain ⟨row, member, same⟩ := List.mem_map.mp again
          exact (fresh row member).1 same
        exact ⟨⟨different, distinct⟩, ⟨this, fun row member => (fresh row member).2⟩,
          by simp [Problem.addConstraint]⟩
      · rintro ⟨⟨different, distinct⟩, ⟨_, fresh⟩, rfl⟩
        have unlike (row) (member : row ∈ statedRows numbering.names (place + 1) rest) :
            row.name ≠ first.name :=
          fun same => different (List.mem_map.mpr ⟨row, member, same⟩)
        exact ⟨distinct, fun row member => ⟨unlike row member, fresh row member⟩,
          by simp [Problem.addConstraint]⟩

theorem addBounds_eq_ok_iff {statements : List (BoundStatement β)} {problem result : Problem α β}
    {f : String → Bounds β} (bounded : problem.bounds = numbering.names.map f) :
    numbering.addBounds problem statements = .ok result ↔
      (∀ s ∈ statements, s.name ∈ numbering.names) ∧
        result = { problem with
          bounds := numbering.names.map fun name => boundsOf statements name (f name) } := by
  -- The bounds so far depend on the names alone, and a statement changes those of its name.
  induction statements generalizing problem f with
  | nil => simp [addBounds, boundsOf, eq_comm, ← bounded]
  | cons statement rest ih =>
    unfold addBounds
    split
    next j numbered =>
      have place := number?_eq_some_iff.mp numbered
      have known := List.mem_of_getElem? place
      have current : problem.bounds.getD j .nonNegative = f statement.name := by
        simp [bounded, place]
      have changed : problem.bounds.set j (statement.kind.apply (f statement.name)) =
          numbering.names.map fun name =>
            if statement.name = name then statement.kind.apply (f name) else f name := by
        rw [bounded, List.set_eq_modify, modify_number numbered]
        apply List.map_congr_left
        intro name _
        by_cases same : statement.name = name <;> simp [same]
      rw [current, ih changed, List.forall_mem_cons, and_iff_right known]
      apply and_congr_right'
      have folded : (fun name => boundsOf rest name
          (if statement.name = name then statement.kind.apply (f name) else f name)) =
            fun name => boundsOf (statement :: rest) name (f name) := by
        funext name
        by_cases same : statement.name = name <;> simp [boundsOf, same]
      rw [folded]
      rfl
    next unknown =>
      have missing := number?_eq_none_iff.mp unknown
      simp [missing]

end Numbering

namespace File

variable {file : File α β}

omit [Scalar α] [Endpoint β α] in
theorem firstOccurrences_names (file : File α β) :
    FirstOccurrences file.numbering.names (file.terms.map (·.name)) := by
  have occurrences := Numbering.firstOccurrences_foldl_add (file.terms.map (·.name))
  rwa [List.foldl_map] at occurrences

omit [Scalar α] [Endpoint β α] in
/-- Every term finds the number of its variable. -/
theorem term_known (file : File α β) :
    ∀ term ∈ file.terms, term.name ∈ file.numbering.names := by
  intro term member
  rw [file.firstOccurrences_names.mem]
  exact List.mem_map_of_mem member

/-- The names of the rows are different, and the bounds name variables of the terms. -/
structure Compiles (file : File α β) : Prop where
  distinct : (file.stated.constraints.map (·.name)).Nodup
  known : ∀ s ∈ file.bounds, s.name ∈ file.numbering.names

/-- A file that compiles gives the problem that it states. -/
theorem problem_eq_ok_iff {problem : Problem α β} :
    file.problem = .ok problem ↔ file.Compiles ∧ problem = file.stated := by
  have known := List.forall_mem_append.mp file.term_known
  have rows (s) (member : s ∈ file.constraints) (term) (inside : term ∈ s.terms) :=
    known.2 term (List.mem_flatMap.mpr ⟨s, member, inside⟩)
  rw [File.problem]
  simp only [bind_eq_ok_iff, Numbering.addConstraints_eq_ok_iff rows, Numbering.row_eq known.1]
  constructor
  · rintro ⟨constrained, ⟨distinct, _, rfl⟩, bounded⟩
    obtain ⟨known, rfl⟩ := (Numbering.addBounds_eq_ok_iff rfl).mp bounded
    exact ⟨⟨distinct, known⟩, rfl⟩
  · rintro ⟨⟨distinct, known⟩, rfl⟩
    refine ⟨_, ⟨distinct, by simp, rfl⟩, ?_⟩
    exact (Numbering.addBounds_eq_ok_iff rfl).mpr ⟨known, rfl⟩

end File

theorem compile_eq_ok_iff {file : File α β} {model : Model α β} :
    (compile file).result = .ok model ↔
      file.Compiles ∧ model = ⟨file.objective.name?.getD "obj", file.stated⟩ := by
  have result : (compile file).result =
      (fun problem => ⟨file.objective.name?.getD "obj", problem⟩) <$> file.problem := by
    simp only [compile, Logged.result_bind, Logged.result_ofExcept]
    rfl
  rw [result, map_eq_ok_iff]
  simp only [File.problem_eq_ok_iff]
  constructor
  · rintro ⟨problem, ⟨compiles, rfl⟩, rfl⟩
    exact ⟨compiles, rfl⟩
  · rintro ⟨compiles, rfl⟩
    exact ⟨file.stated, ⟨compiles, rfl⟩, rfl⟩

/-! ### Evaluation -/

end LinOpt.Lp
