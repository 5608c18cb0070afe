import LinOpt.Proofs.Lp.Meaning

/-!
# Files that do not compile

A file fails to compile for one of two reasons. Two of its rows have the same name, and then the
first row with a name that is taken is blamed; or a bound names a variable that no term names, and
then the first such bound is. Names come before bounds, wherever they stand in the file.
-/

namespace LinOpt.Lp

variable {α β : Type}

/-- The name of a row: that of its constraint, or else what its place gives. -/
def ConstraintStatement.nameAt (statement : ConstraintStatement α) (place : Nat) : String :=
  statement.name?.getD s!"c{place}"

/-- The names of the rows of constraints, the first of which is at the given place. -/
def rowNames (place : Nat) (statements : List (ConstraintStatement α)) : List String :=
  (statements.zipIdx place).map fun (statement, i) => statement.nameAt i

namespace File

/-- A term of the objective or of a constraint names the variable. -/
def Names (file : File α β) (name : String) : Prop := ∃ term ∈ file.terms, term.name = name

theorem mem_names_iff {file : File α β} {name : String} :
    name ∈ file.numbering.names ↔ file.Names name := by
  rw [file.firstOccurrences_names.mem, List.mem_map]
  rfl

end File

/-! ### Names of rows -/

theorem rowNames_cons (place : Nat) (statement : ConstraintStatement α)
    (rest : List (ConstraintStatement α)) :
    rowNames place (statement :: rest) = statement.nameAt place :: rowNames (place + 1) rest := rfl

theorem rowNames_append (place : Nat) (before after : List (ConstraintStatement α)) :
    rowNames place (before ++ after) =
      rowNames place before ++ rowNames (place + before.length) after := by
  rw [rowNames, List.zipIdx_append, List.map_append]
  rfl

theorem length_rowNames (place : Nat) (statements : List (ConstraintStatement α)) :
    (rowNames place statements).length = statements.length := by
  rw [rowNames, List.length_map, List.length_zipIdx]

theorem getElem?_rowNames (place : Nat) (statements : List (ConstraintStatement α)) (i : Nat) :
    (rowNames place statements)[i]? = statements[i]?.map (·.nameAt (place + i)) := by
  rw [rowNames, List.getElem?_map, List.getElem?_zipIdx, Option.map_map]
  rfl

/-- Different places give different names. -/
theorem nameAt_inj {first second : ConstraintStatement α} (unnamed : first.name? = none)
    (also : second.name? = none) {i j : Nat} (same : first.nameAt i = second.nameAt j) :
    i = j := by
  rw [ConstraintStatement.nameAt, ConstraintStatement.nameAt, unnamed, also] at same
  have digits : Nat.toDigits 10 i = Nat.toDigits 10 j := by
    have written : i.repr = j.repr := (String.append_right_inj "c").mp same
    rwa [Nat.repr_eq_ofList_toDigits, Nat.repr_eq_ofList_toDigits, String.ofList_inj] at written
  calc i
      = Nat.ofDigitChars 10 (Nat.toDigits 10 i) 0 := Nat.ofDigitChars_ten_toDigits.symm
    _ = Nat.ofDigitChars 10 (Nat.toDigits 10 j) 0 := by rw [digits]
    _ = j := Nat.ofDigitChars_ten_toDigits

variable [Scalar α] [Endpoint β α]

omit [Endpoint β α] in
theorem map_name_statedRows (names : List String) (place : Nat)
    (statements : List (ConstraintStatement α)) :
    (statedRows names place statements).map (·.name) = rowNames place statements := by
  rw [statedRows, List.map_map]
  rfl

/-! ### The first fault -/

/-- A list is split at its first entry or at a later one. -/
theorem exists_split_cons_iff {γ : Type} {x : γ} {xs : List γ}
    {property : List γ → γ → Prop} :
    (∃ before y after, x :: xs = before ++ y :: after ∧ property before y) ↔
      property [] x ∨ ∃ before y after, xs = before ++ y :: after ∧ property (x :: before) y := by
  constructor
  · rintro ⟨before, y, after, parts, holds⟩
    cases before with
    | nil =>
      cases parts
      exact .inl holds
    | cons first before =>
      cases parts
      exact .inr ⟨before, y, after, rfl, holds⟩
  · rintro (holds | ⟨before, y, after, rfl, holds⟩)
    · exact ⟨[], x, xs, rfl, holds⟩
    · exact ⟨x :: before, y, after, rfl, holds⟩

/-- The name of a row is taken, and the rows before it have new and distinct names. -/
def FirstTaken (place : Nat) (taken : List String) (before : List (ConstraintStatement α))
    (name : String) : Prop :=
  (rowNames place before).Nodup ∧ (∀ other ∈ rowNames place before, other ∉ taken) ∧
    (name ∈ taken ∨ name ∈ rowNames place before)

omit [Scalar α] [Endpoint β α] in
theorem firstTaken_nil {place : Nat} {taken : List String} {name : String} :
    FirstTaken place taken ([] : List (ConstraintStatement α)) name ↔ name ∈ taken := by
  simp [FirstTaken, rowNames]

omit [Scalar α] [Endpoint β α] in
theorem firstTaken_cons {place : Nat} {taken : List String} {name : String}
    {statement : ConstraintStatement α} {before : List (ConstraintStatement α)} :
    FirstTaken place taken (statement :: before) name ↔ statement.nameAt place ∉ taken ∧
      FirstTaken (place + 1) (statement.nameAt place :: taken) before name := by
  rw [FirstTaken, FirstTaken, rowNames_cons, List.nodup_cons, List.forall_mem_cons]
  -- The names after the first one are not taken later: they are neither old nor the first one.
  simp only [List.mem_cons, not_or, imp_and, forall_and, List.forall_mem_ne']
  tauto

namespace Numbering

variable {numbering : Numbering}

omit [Endpoint β α] in
/-- Rows are rejected at the first one with a name that is taken. -/
theorem addConstraints_eq_error_iff {statements : List (ConstraintStatement α)} {place : Nat}
    {taken : List String} {problem : Problem α β} {error : CompileError} :
    numbering.addConstraints place taken problem statements = .error error ↔
      ∃ before statement after, statements = before ++ statement :: after ∧
        FirstTaken place taken before (statement.nameAt (place + before.length)) ∧
        error = .duplicateConstraint (statement.nameAt (place + before.length))
          statement.line := by
  induction statements generalizing place taken problem with
  | nil => simp [addConstraints]
  | cons statement rest ih =>
    have name : statement.name?.getD s!"c{place}" = statement.nameAt place := rfl
    have shift (before : List (ConstraintStatement α)) :
        place + (statement :: before).length = place + 1 + before.length := by
      rw [List.length_cons]
      omega
    rw [exists_split_cons_iff]
    simp only [addConstraints, name, firstTaken_nil, firstTaken_cons, shift]
    split
    next old =>
      have old : statement.nameAt place ∈ taken := by simpa using old
      simp [old, eq_comm]
    next new =>
      have new : statement.nameAt place ∉ taken := by simpa using new
      simp [new, ih]

/-- Bounds are rejected at the first one whose variable has no number. -/
theorem addBounds_eq_error_iff {statements : List (BoundStatement β)} {problem : Problem α β}
    {error : CompileError} :
    numbering.addBounds problem statements = .error error ↔
      ∃ before statement after, statements = before ++ statement :: after ∧
        (∀ earlier ∈ before, earlier.name ∈ numbering.names) ∧
        statement.name ∉ numbering.names ∧
        error = .unknownVariable statement.name statement.line := by
  induction statements generalizing problem with
  | nil => simp [addBounds]
  | cons statement rest ih =>
    rw [exists_split_cons_iff]
    unfold addBounds
    simp only [List.forall_mem_cons]
    split
    next j numbered =>
      have known := List.mem_of_getElem? (number?_eq_some_iff.mp numbered)
      simp [known, ih]
    next unknown =>
      have missing := number?_eq_none_iff.mp unknown
      simp [missing, eq_comm]

end Numbering

/-! ### Files -/

namespace File

variable {file : File α β}

/-- The constraint is the first one whose name an earlier one has. -/
def FirstRepeated (file : File α β) (name : String) (line : Nat) : Prop :=
  ∃ before statement after, file.constraints = before ++ statement :: after ∧
    (rowNames 0 before).Nodup ∧ statement.nameAt before.length ∈ rowNames 0 before ∧
    name = statement.nameAt before.length ∧ line = statement.line

/-- The bound is the first one whose variable no term names. -/
def FirstUnknown (file : File α β) (name : String) (line : Nat) : Prop :=
  ∃ before bound after, file.bounds = before ++ bound :: after ∧
    (∀ earlier ∈ before, file.Names earlier.name) ∧ ¬ file.Names bound.name ∧
    name = bound.name ∧ line = bound.line

omit [Scalar α] [Endpoint β α] in
theorem FirstRepeated.not_nodup {name : String} {line : Nat}
    (repeated : file.FirstRepeated name line) : ¬ (rowNames 0 file.constraints).Nodup := by
  obtain ⟨before, statement, after, parts, _, again, _⟩ := repeated
  rw [parts, rowNames_append, rowNames_cons, Nat.zero_add]
  intro distinct
  exact List.disjoint_of_nodup_append distinct again List.mem_cons_self

theorem compiles_iff : file.Compiles ↔
    (rowNames 0 file.constraints).Nodup ∧ ∀ bound ∈ file.bounds, file.Names bound.name := by
  have names : file.stated.constraints.map (·.name) = rowNames 0 file.constraints :=
    map_name_statedRows _ 0 _
  constructor
  · rintro ⟨distinct, known⟩
    exact ⟨names ▸ distinct, fun bound member => mem_names_iff.mp (known bound member)⟩
  · rintro ⟨distinct, known⟩
    exact ⟨names ▸ distinct, fun bound member => mem_names_iff.mpr (known bound member)⟩

theorem problem_eq_error_iff {error : CompileError} : file.problem = .error error ↔
    (∃ name line, file.FirstRepeated name line ∧ error = .duplicateConstraint name line) ∨
      (rowNames 0 file.constraints).Nodup ∧
        ∃ name line, file.FirstUnknown name line ∧ error = .unknownVariable name line := by
  have known := List.forall_mem_append.mp file.term_known
  have inRows (s) (member : s ∈ file.constraints) (term) (inside : term ∈ s.terms) :=
    known.2 term (List.mem_flatMap.mpr ⟨s, member, inside⟩)
  have names : (statedRows file.numbering.names 0 file.constraints).map (·.name) =
      rowNames 0 file.constraints := map_name_statedRows _ 0 _
  simp only [File.problem, bind_eq_error_iff, Numbering.addConstraints_eq_error_iff,
    Numbering.addConstraints_eq_ok_iff inRows, Numbering.addBounds_eq_error_iff, names]
  apply or_congr
  · constructor
    · rintro ⟨before, statement, after, parts, ⟨distinct, _, again⟩, rfl⟩
      refine ⟨_, _, ⟨before, statement, after, parts, distinct, ?_, rfl, rfl⟩, by simp⟩
      simpa using again
    · rintro ⟨_, _, ⟨before, statement, after, parts, distinct, again, rfl, rfl⟩, rfl⟩
      exact ⟨before, statement, after, parts,
        ⟨distinct, by simp, .inr (by simpa using again)⟩, by simp⟩
  · constructor
    · rintro ⟨_, ⟨distinct, _, rfl⟩, before, bound, after, parts, earlier, missing, rfl⟩
      refine ⟨distinct, _, _, ⟨before, bound, after, parts, ?_, ?_, rfl, rfl⟩, rfl⟩
      · exact fun statement member => mem_names_iff.mp (earlier statement member)
      · exact fun occurs => missing (mem_names_iff.mpr occurs)
    · rintro ⟨distinct, _, _, ⟨before, bound, after, parts, earlier, missing, rfl, rfl⟩, rfl⟩
      refine ⟨_, ⟨distinct, by simp, rfl⟩, before, bound, after, parts, ?_, ?_, rfl⟩
      · exact fun statement member => mem_names_iff.mpr (earlier statement member)
      · exact fun occurs => missing (mem_names_iff.mp occurs)

end File

theorem compile_eq_error_iff {file : File α β} {error : CompileError} :
    (compile file).result = .error error ↔ file.problem = .error error := by
  simp only [compile, Logged.result_bind, Logged.result_ofExcept]
  cases file.problem <;> simp [Except.bind]

theorem exists_compile_iff {file : File α β} :
    (∃ model, (compile file).result = .ok model) ↔
      (rowNames 0 file.constraints).Nodup ∧ ∀ bound ∈ file.bounds, file.Names bound.name := by
  simp only [compile_eq_ok_iff, exists_and_left, exists_eq, and_true, File.compiles_iff]

/-- A file that does not compile has an error, which blames a row or a bound. -/
theorem exists_error_of_not_compiles {file : File α β}
    (fails : ¬ ∃ model, (compile file).result = .ok model) :
    (∃ name line, file.FirstRepeated name line) ∨
      (rowNames 0 file.constraints).Nodup ∧ ∃ name line, file.FirstUnknown name line := by
  cases result : (compile file).result with
  | ok model => exact absurd ⟨model, result⟩ fails
  | error error =>
    have first := File.problem_eq_error_iff.mp (compile_eq_error_iff.mp result)
    obtain ⟨name, line, repeated, _⟩ | ⟨distinct, name, line, unknown, _⟩ := first
    · exact .inl ⟨name, line, repeated⟩
    · exact .inr ⟨distinct, name, line, unknown⟩

section

variable {file : File α β} {name : String} {line : Nat}

theorem compile_eq_duplicate_iff :
    (compile file).result = .error (.duplicateConstraint name line) ↔
      file.FirstRepeated name line := by
  rw [compile_eq_error_iff, File.problem_eq_error_iff]
  constructor
  · rintro (⟨_, _, first, ⟨⟩⟩ | ⟨_, _, _, _, ⟨⟩⟩)
    exact first
  · exact fun first => .inl ⟨name, line, first, rfl⟩

theorem compile_eq_unknown_iff : (compile file).result = .error (.unknownVariable name line) ↔
    (rowNames 0 file.constraints).Nodup ∧ file.FirstUnknown name line := by
  rw [compile_eq_error_iff, File.problem_eq_error_iff]
  constructor
  · rintro (⟨_, _, _, ⟨⟩⟩ | ⟨distinct, _, _, first, ⟨⟩⟩)
    exact ⟨distinct, first⟩
  · exact fun ⟨distinct, first⟩ => .inr ⟨distinct, name, line, first, rfl⟩

omit [Scalar α] [Endpoint β α] in
theorem not_nodup_rowNames_iff : ¬ (rowNames 0 file.constraints).Nodup ↔
    ∃ i j, i < j ∧ j < file.constraints.length ∧
      (rowNames 0 file.constraints)[i]? = (rowNames 0 file.constraints)[j]? := by
  simp [List.nodup_iff_getElem?_ne_getElem?, length_rowNames]

/-- Some row repeats a name if the names are not distinct, whatever the bounds say. -/
theorem exists_firstRepeated_iff :
    (∃ name line, file.FirstRepeated name line) ↔ ¬ (rowNames 0 file.constraints).Nodup := by
  constructor
  · rintro ⟨_, _, first⟩
    exact first.not_nodup
  · intro again
    have fails : ¬ ∃ model, (compile file).result = .ok model :=
      fun compiles => again (exists_compile_iff.mp compiles).1
    exact (exists_error_of_not_compiles fails).resolve_right fun unknown => again unknown.1

theorem exists_firstUnknown_iff (distinct : (rowNames 0 file.constraints).Nodup) :
    (∃ name line, file.FirstUnknown name line) ↔
      ∃ bound ∈ file.bounds, ¬ file.Names bound.name := by
  constructor
  · rintro ⟨_, _, before, bound, after, parts, _, missing, rfl, rfl⟩
    exact ⟨bound, by simp [parts], missing⟩
  · rintro ⟨bound, member, missing⟩
    have fails : ¬ ∃ model, (compile file).result = .ok model :=
      fun compiles => missing ((exists_compile_iff.mp compiles).2 bound member)
    obtain ⟨_, _, first⟩ | ⟨_, unknown⟩ := exists_error_of_not_compiles fails
    · exact absurd distinct first.not_nodup
    · exact unknown

end

/-- Which files compile, and what is said of the others. -/
structure CompilesExactly (file : File α β) : Prop where
  /-- Two rows have the same name. -/
  clashes : (∃ name line, (compile file).result = .error (.duplicateConstraint name line)) ↔
    ∃ i j, i < j ∧ j < file.constraints.length ∧
      (rowNames 0 file.constraints)[i]? = (rowNames 0 file.constraints)[j]?
  repeated : ∀ name line, (compile file).result = .error (.duplicateConstraint name line) ↔
    file.FirstRepeated name line
  /-- No two rows have the same name, and a bound has a variable that no term names. -/
  misses : (∃ name line, (compile file).result = .error (.unknownVariable name line)) ↔
    (rowNames 0 file.constraints).Nodup ∧ ∃ bound ∈ file.bounds, ¬ file.Names bound.name
  unknown : ∀ name line, (compile file).result = .error (.unknownVariable name line) ↔
    (rowNames 0 file.constraints).Nodup ∧ file.FirstUnknown name line
  succeeds : (∃ model, (compile file).result = .ok model) ↔
    (rowNames 0 file.constraints).Nodup ∧ ∀ bound ∈ file.bounds, file.Names bound.name
  /-- Rows of constraints without names have different names. -/
  unnamed : ∀ (i j : Nat) (first second : ConstraintStatement α),
    file.constraints[i]? = some first → file.constraints[j]? = some second →
      first.name? = none → second.name? = none → i ≠ j →
        (rowNames 0 file.constraints)[i]? ≠ (rowNames 0 file.constraints)[j]?
  /-- Every term finds the number of its variable. -/
  found : ∀ term ∈ file.terms, ∃ j, file.numbering.number? term.name = some j ∧
    j < file.numbering.names.length

theorem compiles_exactly (file : File α β) : CompilesExactly file where
  clashes := by
    simp only [compile_eq_duplicate_iff]
    exact exists_firstRepeated_iff.trans not_nodup_rowNames_iff
  repeated _ _ := compile_eq_duplicate_iff
  misses := by
    simp only [compile_eq_unknown_iff, exists_and_left]
    exact and_congr_right exists_firstUnknown_iff
  unknown _ _ := compile_eq_unknown_iff
  succeeds := exists_compile_iff
  unnamed := by
    intro i j first second place place' unnamed unnamed' apart same
    rw [getElem?_rowNames, getElem?_rowNames, place, place'] at same
    have places := nameAt_inj unnamed unnamed' (Option.some_inj.mp same)
    omega
  found := by
    intro term member
    obtain ⟨j, place⟩ := List.mem_iff_getElem?.mp (file.term_known term member)
    refine ⟨j, Numbering.number?_eq_some_iff.mpr place, ?_⟩
    exact (List.getElem?_eq_some_iff.mp place).1

/-- A name that is given may be the one of another place. -/
example : (compile (⟨⟨none, .minimize, [], 1, ⟨0, 3⟩⟩,
    [⟨some "c1", [], .le, 1, 3, ⟨12, 16⟩⟩, ⟨none, [], .le, 1, 4, ⟨18, 22⟩⟩], []⟩ :
      File Rat ExtendedRat)).result = .error (.duplicateConstraint "c1" 4) := rfl

end LinOpt.Lp
