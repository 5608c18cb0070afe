import LinOpt.Proofs.Simplex.Removal

/-!
# Phase one in exact arithmetic

Artificial columns that are still basic at the optimum are zero. Removing them touches no feasible
point: either a column of the program takes the place of one, or the row of the inverse basis is a
combination of the remaining rows in which no column of the program is left, and the row of the
artificial column follows from the others.
-/

namespace LinOpt.Simplex

open Finset

variable {program : Program Rat} {x : Nat → Rat}

/-! ### Removal of artificial columns -/

/-- A basis of the auxiliary program for some of its rows, with all columns of a given point. -/
structure Program.PartialBasis (program : Program Rat) (x : Nat → Rat) (rows basis : List Nat) :
    Prop where
  inside : ∀ r ∈ rows, r < program.rows.length
  length : basis.length = rows.length
  columns : ∀ j ∈ basis, j < program.rows.length + program.numColumns
  support : ∀ j, x j ≠ 0 → program.rows.length + j ∈ basis

namespace Program.PartialBasis

variable {rows basis : List Nat}

theorem isBasis (start : program.PartialBasis x rows basis) :
    (program.auxiliary.restrict rows).IsBasis basis where
  length := by rw [length_restrict, start.length]
  columns j member := (start.columns j member).trans_eq (numColumns_auxiliary program).symm

theorem getD_inside (start : program.PartialBasis x rows basis) {k : Nat}
    (small : k < rows.length) : rows.getD k 0 < program.rows.length := by
  rw [List.getD_eq_getElem _ _ small]
  exact start.inside _ (List.getElem_mem small)

theorem columnDot_given (start : program.PartialBasis x rows basis) (y : List Rat) (j : Nat) :
    (program.auxiliary.restrict rows).columnDot y (program.rows.length + j) =
      ∑ k ∈ range rows.length, program.coefficient (rows.getD k 0) j * y.getD k 0 := by
  rw [columnDot_eq_sum, length_restrict]
  refine sum_congr rfl fun k member => ?_
  have small := mem_range.mp member
  rw [coefficient_restrict small, coefficient_given (start.getD_inside small)]

theorem columnDot_artificial (start : program.PartialBasis x rows basis) (y : List Rat) {i : Nat}
    (artificial : i < program.rows.length) :
    (program.auxiliary.restrict rows).columnDot y i =
      ∑ k ∈ range rows.length, (if rows.getD k 0 = i then 1 else 0) * y.getD k 0 := by
  rw [columnDot_eq_sum, length_restrict]
  refine sum_congr rfl fun k member => ?_
  have small := mem_range.mp member
  rw [coefficient_restrict small, coefficient_artificial (start.getD_inside small) artificial]

/-- Without a replacement no column of the program is left in the row of the inverse basis. -/
theorem columnDot_zero (start : program.PartialBasis x rows basis) {inverse : List (List Rat)}
    (inverted : Dense.invert ((program.auxiliary.restrict rows).basisMatrix basis) = some inverse)
    {position : Nat} (inside : position < basis.length)
    (artificial : basis[position] < program.rows.length)
    (nothing : replacement? 0 (program.auxiliary.restrict rows) program.rows.length basis
      (inverse.getD position []) = none) {j : Nat} (column : j < program.numColumns) :
    (program.auxiliary.restrict rows).columnDot (inverse.getD position [])
      (program.rows.length + j) = 0 := by
  -- A basic column is orthogonal to the row; any other was rejected as a replacement.
  by_cases basic : program.rows.length + j ∈ basis
  · obtain ⟨k, small, same⟩ := List.getElem_of_mem basic
    have picked := start.isBasis.inverse_row inverted inside small
    have other : position ≠ k := by
      rintro rfl
      omega
    rwa [List.getD_eq_getElem _ _ small, same, if_neg other] at picked
  · have candidate : program.rows.length + j ∈
        (List.range (program.auxiliary.restrict rows).numColumns).drop program.rows.length := by
      refine List.mem_drop_iff_getElem.mpr ⟨j, ?_, by simp⟩
      have wide : (program.auxiliary.restrict rows).numColumns =
        program.rows.length + program.numColumns := numColumns_auxiliary program
      rw [List.length_range, wide]
      omega
    have rejected := List.find?_eq_none.mp nothing _ candidate
    have fresh : basis.contains (program.rows.length + j) = false := by simpa using basic
    rw [fresh, Bool.not_false, Bool.true_and, decide_eq_true_eq] at rejected
    rw [Scalar.abs_eq, not_lt] at rejected
    exact abs_nonpos_iff.mp rejected

/-- The row of an artificial column without replacement follows from the other remaining rows. -/
theorem implied_row (start : program.PartialBasis x rows basis) (feasible : program.Feasible x)
    {inverse : List (List Rat)}
    (inverted : Dense.invert ((program.auxiliary.restrict rows).basisMatrix basis) = some inverse)
    {position : Nat} (inside : position < basis.length)
    (artificial : basis[position] < program.rows.length)
    (nothing : replacement? 0 (program.auxiliary.restrict rows) program.rows.length basis
      (inverse.getD position []) = none) {z : Nat → Rat}
    (others : program.Solves (rows.erase basis[position]) z) :
    program.leftSide z basis[position] = program.rightSide basis[position] := by
  set y := inverse.getD position [] with y_def
  -- The combination of the rows has no column of the program, so it is zero at every point.
  have level (u : Nat → Rat) :
      ∑ k ∈ range rows.length, y.getD k 0 * program.leftSide u (rows.getD k 0) = 0 := by
    simp only [leftSide, mul_sum]
    rw [sum_comm]
    refine sum_eq_zero fun j column => ?_
    have zero := start.columnDot_zero inverted inside artificial nothing (mem_range.mp column)
    rw [start.columnDot_given] at zero
    calc ∑ k ∈ range rows.length, y.getD k 0 * (program.coefficient (rows.getD k 0) j * u j)
        = (∑ k ∈ range rows.length, program.coefficient (rows.getD k 0) j * y.getD k 0) * u j := by
          rw [sum_mul]
          exact sum_congr rfl fun k _ => by ring
      _ = 0 := by rw [zero, zero_mul]
  have unit := start.isBasis.inverse_row inverted inside inside
  rw [List.getD_eq_getElem _ _ inside, if_pos rfl, start.columnDot_artificial _ artificial]
    at unit
  -- The other rows agree at both points, so only the row of the artificial column can differ.
  have difference : ∑ k ∈ range rows.length, y.getD k 0 *
      (program.leftSide z (rows.getD k 0) - program.leftSide x (rows.getD k 0)) =
        program.leftSide z basis[position] - program.leftSide x basis[position] := by
    rw [← one_mul (program.leftSide z _ - _), ← unit, sum_mul]
    refine sum_congr rfl fun k member => ?_
    have small := mem_range.mp member
    rw [List.getD_eq_getElem _ _ small]
    by_cases same : rows[k] = basis[position]
    · rw [same, if_pos rfl, one_mul]
    · have kept : rows[k] ∈ rows.erase basis[position] :=
        (List.mem_erase_of_ne same).mpr (List.getElem_mem small)
      rw [if_neg same, others _ kept, feasible.solves _ (start.inside _ (List.getElem_mem small))]
      ring
  simp only [mul_sub, sum_sub_distrib, level, sub_self] at difference
  rw [← feasible.solves _ artificial]
  exact (sub_eq_zero.mp difference.symm)

/-- A column of the program takes the place of an artificial one. -/
theorem replace {kept pending : List Nat} {column j : Nat}
    (start : program.PartialBasis x rows (kept ++ column :: pending))
    (artificial : column < program.rows.length)
    (given : j < program.rows.length + program.numColumns) :
    program.PartialBasis x rows ((kept ++ [j]) ++ pending) where
  inside := start.inside
  length := by simpa using start.length
  columns k member := by
    simp only [List.append_assoc, List.mem_append, List.mem_cons, List.singleton_append] at member
    rcases member with member | rfl | member
    · exact start.columns k (by simp [member])
    · exact given
    · exact start.columns k (by simp [member])
  support k nonzero := by
    have member := start.support k nonzero
    simp only [List.mem_append, List.mem_cons] at member ⊢
    rcases member with member | same | member
    · exact Or.inl (Or.inl member)
    · omega
    · exact Or.inr member

/-- An artificial column leaves together with its row. -/
theorem drop {kept pending : List Nat} {column : Nat}
    (start : program.PartialBasis x rows (kept ++ column :: pending))
    (artificial : column < program.rows.length) (member : column ∈ rows) :
    program.PartialBasis x (rows.erase column) (kept ++ pending) where
  inside r member := start.inside r (List.mem_of_mem_erase member)
  length := by
    have length := start.length
    rw [List.length_erase_of_mem member, ← length]
    simp
  columns k member := start.columns k (by
    rcases List.mem_append.mp member with member | member <;> simp [member])
  support k nonzero := by
    have member := start.support k nonzero
    simp only [List.mem_append, List.mem_cons] at member ⊢
    rcases member with member | same | member
    · exact Or.inl member
    · omega
    · exact Or.inr member

/-- Without the artificial columns, a given feasible point is zero outside the basis. -/
theorem basicPoint (start : program.PartialBasis x rows basis) (feasible : program.Feasible x) :
    (program.restrict rows).BasicPoint (basis.map (· - program.rows.length)) x where
  toFeasible := feasible.restrict start.inside
  support j outside := by
    by_contra nonzero
    refine outside (List.mem_map.mpr ⟨_, start.support j nonzero, ?_⟩)
    exact Nat.add_sub_cancel_left _ _

end Program.PartialBasis

/-- The loop that removes artificial columns starts with all columns of the point. -/
theorem Program.BasicPoint.partialBasis {y : Nat → Rat} {last : List Nat}
    (point : program.auxiliary.BasicPoint last y)
    (sound : Remaining.Sound program ⟨List.range program.rows.length, last⟩) :
    program.PartialBasis (fun j => y (program.rows.length + j)) (List.range program.rows.length)
      last where
  inside _ := List.mem_range.mp
  length := sound.length
  columns := sound.columns
  support j nonzero := by
    by_contra outside
    exact nonzero (point.support _ outside)

/-- Removing artificial columns leaves a basis of program columns for rows that imply the others,
by induction along the basis. -/
theorem removeArtificials_ok {solver : Solver Rat} {iterations : Nat} {rows kept pending : List Nat}
    {basis remaining : List Nat} (exact : solver.tolerance = 0) (feasible : program.Feasible x)
    (start : program.PartialBasis x rows (kept ++ pending))
    (done : ∀ j ∈ kept, program.rows.length ≤ j)
    (returned : (removeArtificials solver.tolerance program.auxiliary program.rows.length iterations
      rows kept pending).result = .ok (basis, remaining)) :
    program.PartialBasis x remaining basis ∧ (∀ j ∈ basis, program.rows.length ≤ j) ∧
      ∀ z, program.Solves remaining z → program.Solves rows z := by
  rw [exact] at returned
  fun_induction removeArtificials (0 : Rat) program.auxiliary program.rows.length iterations
    rows kept pending with
  | case1 rows kept =>
    obtain ⟨rfl, rfl⟩ : kept = basis ∧ rows = remaining := by simpa using returned
    exact ⟨by simpa using start, done, fun _ solves => solves⟩
  | case2 rows kept column pending large ih =>
    have start : program.PartialBasis x rows ((kept ++ [column]) ++ pending) := by simpa using start
    exact ih start (forall_mem_concat done large) returned
  | case3 => simp [Except.bind] at returned
  | case4 rows kept column pending small basis' auxiliary' inverse inverted j found ih =>
    have range := replacement?_some found
    have wide : auxiliary'.numColumns = program.rows.length + program.numColumns :=
      Program.numColumns_auxiliary program
    rw [wide] at range
    exact ih (start.replace (not_le.mp small) range.2.1) (forall_mem_concat done range.1)
      (by simpa [Except.bind] using returned)
  | case5 rows kept column pending small basis' auxiliary' inverse inverted nothing member ih =>
    have member : column ∈ rows := by simpa using member
    have small := not_le.mp small
    -- The row leaves with its column, and solutions of the remaining rows solve it.
    obtain ⟨partialBasis, given, implied⟩ := ih (start.drop small member) done
      (by simpa [Except.bind] using returned)
    refine ⟨partialBasis, given, fun z solves r inRows => ?_⟩
    have rest := implied z solves
    have inside : kept.length < (kept ++ column :: pending).length := by simp
    have here : (kept ++ column :: pending)[kept.length] = column := by simp
    by_cases same : r = column
    · have follows := start.implied_row feasible inverted inside (by rwa [here]) nothing
        (z := z) (by rwa [here])
      rwa [here, ← same] at follows
    · exact rest r ((List.mem_erase_of_ne same).mpr inRows)
  | case6 => simp at returned

/-! ### The end of phase one -/

theorem phaseOne_ok {α : Type} [Scalar α] {solver : Solver α} {program : Program α}
    {outcome : PhaseOne α}
    (returned : (phaseOne solver program).result = .ok outcome) :
    ∃ basis, (∃ entering direction, outcome = .unbounded ⟨.one, entering, basis, direction⟩ ∧
        (run solver program.auxiliary .one (List.range program.rows.length)).result =
          .ok (.unbounded basis entering direction)) ∨
      ∃ values iterations,
        (run solver program.auxiliary .one (List.range program.rows.length)).result =
          .ok (.optimal basis values iterations) ∧
        ((outcome = .infeasible ∧ infeasibilityLimit solver.tolerance program.rhs <
            Scalar.sum (values.take program.rows.length)) ∨
          ∃ columns rows,
            outcome = .feasible (columns.map (· - program.rows.length)) rows iterations ∧
            ¬ infeasibilityLimit solver.tolerance program.rhs <
              Scalar.sum (values.take program.rows.length) ∧
            (removeArtificials solver.tolerance program.auxiliary program.rows.length iterations
              (List.range program.rows.length) [] basis).result = .ok (columns, rows)) := by
  unfold phaseOne at returned
  simp only [Logged.result_bind] at returned
  cases ended : (run solver program.auxiliary .one (List.range program.rows.length)).result with
  | error reason => simp [ended, Except.bind] at returned
  | ok last =>
    simp only [ended, Except.bind] at returned
    cases last with
    | unbounded basis entering direction =>
      exact ⟨basis, Or.inl ⟨entering, direction, by simpa using returned.symm, rfl⟩⟩
    | optimal basis values iterations =>
      refine ⟨basis, Or.inr ⟨values, iterations, rfl, ?_⟩⟩
      dsimp only at returned
      split at returned
      next positive =>
        refine Or.inl ⟨?_, positive⟩
        simpa [Except.bind] using returned.symm
      next zero =>
        refine Or.inr ?_
        simp only [Logged.result_bind, Logged.result_emit, Except.bind] at returned
        cases removed : (removeArtificials solver.tolerance program.auxiliary program.rows.length
          iterations (List.range program.rows.length) [] basis).result with
        | error reason => simp [removed] at returned
        | ok left =>
          obtain ⟨columns, rows⟩ := left
          refine ⟨columns, rows, ?_, zero, rfl⟩
          simpa [removed] using returned.symm

theorem phaseOne_error {α : Type} [Scalar α] {solver : Solver α} {program : Program α}
    {reason : Failure} (returned : (phaseOne solver program).result = .error reason) :
    (run solver program.auxiliary .one (List.range program.rows.length)).result = .error reason ∨
      ∃ basis values iterations,
        (run solver program.auxiliary .one (List.range program.rows.length)).result =
          .ok (.optimal basis values iterations) ∧
        ¬ infeasibilityLimit solver.tolerance program.rhs <
          Scalar.sum (values.take program.rows.length) ∧
        (removeArtificials solver.tolerance program.auxiliary program.rows.length iterations
          (List.range program.rows.length) [] basis).result = .error reason := by
  unfold phaseOne at returned
  simp only [Logged.result_bind] at returned
  cases ended : (run solver program.auxiliary .one (List.range program.rows.length)).result with
  | error reason' => exact Or.inl (by simpa [ended, Except.bind] using returned)
  | ok last =>
    simp only [ended, Except.bind] at returned
    cases last with
    | unbounded basis entering direction => simp at returned
    | optimal basis values iterations =>
      refine Or.inr ⟨basis, values, iterations, rfl, ?_⟩
      dsimp only at returned
      split at returned
      · simp [Except.bind] at returned
      next zero =>
        refine ⟨zero, ?_⟩
        simp only [Logged.result_bind, Logged.result_emit, Except.bind] at returned
        cases removed : (removeArtificials solver.tolerance program.auxiliary program.rows.length
          iterations (List.range program.rows.length) [] basis).result with
        | error reason' => simpa [removed] using returned
        | ok left => simp [removed] at returned

section Shape

variable {α : Type} [Scalar α] {solver : Solver α} {program : Program α}
  {last start rows : List Nat} {values : List α} {iterations : Nat}

/-- The rows and the basis from which artificial columns are removed. -/
theorem removal_start
    (ended : (run solver program.auxiliary .one (List.range program.rows.length)).result =
      .ok (.optimal last values iterations)) :
    Remaining.Sound program ⟨List.range program.rows.length, last⟩ := by
  obtain ⟨valid, distinct⟩ := Visited.isBasis (run_optimal_visited ended).1
    (Program.isBasis_start program) List.nodup_range
  exact .start valid distinct

/-- A feasible end of phase one is what is left when the artificial columns are gone. -/
theorem phaseOne_rounds
    (feasible : (phaseOne solver program).result = .ok (.feasible start rows iterations)) :
    ∃ last values iterations columns,
      (run solver program.auxiliary .one (List.range program.rows.length)).result =
        .ok (.optimal last values iterations) ∧
      Rounds solver.tolerance program.auxiliary program.rows.length
        ⟨List.range program.rows.length, last⟩ ⟨rows, columns⟩ ∧
      (∀ j ∈ columns, program.rows.length ≤ j) ∧
      start = columns.map (· - program.rows.length) := by
  obtain ⟨last, ⟨_, _, other, _⟩ | ⟨values, iterations', ended, other⟩⟩ := phaseOne_ok feasible
  · cases other
  · rcases other with ⟨other, _⟩ | ⟨columns, rows', same, _, removed⟩
    · cases other
    · cases same
      obtain ⟨rounds, done⟩ := removeArtificials_rounds (by simp) removed
      exact ⟨last, values, _, columns, ended, rounds, done, rfl⟩

/-- Phase two starts from a basis of the program for rows in their order. -/
theorem phaseOne_isBasis
    (feasible : (phaseOne solver program).result = .ok (.feasible start rows iterations)) :
    (program.restrict rows).IsBasis start ∧ start.Nodup ∧
      rows.Sublist (List.range program.rows.length) := by
  obtain ⟨_, _, _, _, ended, rounds, done, rfl⟩ := phaseOne_rounds feasible
  have sound := Rounds.sound rounds (removal_start ended)
  obtain ⟨valid, distinct⟩ := sound.given done
  exact ⟨valid, distinct, sound.rows⟩

end Shape

theorem infeasibilityLimit_zero (rhs : List Rat) : infeasibilityLimit (0 : Rat) rhs = 0 :=
  zero_mul _

theorem sum_take_map (x : Nat → Rat) {m n : Nat} (short : m ≤ n) :
    Scalar.sum (((List.range n).map x).take m) = ∑ i ∈ range m, x i := by
  rw [← List.map_take, List.take_range, min_eq_left short, Scalar.sum_eq]
  rfl

/-- The optimum of the auxiliary program, when its run ends at one. -/
theorem auxiliary_optimum {solver : Solver Rat} (exact : solver.tolerance = 0)
    (fits : program.rhs.length = program.rows.length) (nonneg : ∀ b ∈ program.rhs, 0 ≤ b)
    {basis : List Nat} {values : List Rat} {iterations : Nat}
    (ended : (run solver program.auxiliary .one (List.range program.rows.length)).result =
      .ok (.optimal basis values iterations)) :
    program.auxiliary.IsBasis basis ∧ ∃ y, program.auxiliary.BasicPoint basis y ∧
      Scalar.sum (values.take program.rows.length) = ∑ i ∈ range program.rows.length, y i ∧
      ∀ z, program.auxiliary.Feasible z →
        program.auxiliary.objective y ≤ program.auxiliary.objective z := by
  obtain ⟨start, point⟩ := Program.start_basic fits nonneg
  obtain ⟨valid, -, y, point, rfl, least⟩ :=
    run_optimal exact start point ended
  refine ⟨valid, y, point, sum_take_map y ?_, least⟩
  rw [Program.numColumns_auxiliary]
  exact Nat.le_add_right _ _

/-- A positive optimum of the auxiliary program leaves no feasible point. -/
theorem phaseOne_infeasible {solver : Solver Rat} (exact : solver.tolerance = 0)
    (fits : program.rhs.length = program.rows.length) (nonneg : ∀ b ∈ program.rhs, 0 ≤ b)
    (returned : (phaseOne solver program).result = .ok .infeasible) (z : Nat → Rat) :
    ¬ program.Feasible z := by
  intro feasible
  obtain ⟨basis, ⟨_, _, other, _⟩ | ⟨values, iterations, ended, last⟩⟩ := phaseOne_ok returned
  · cases other
  · rcases last with ⟨_, positive⟩ | ⟨_, _, other, _⟩
    · obtain ⟨_, y, _, sum, least⟩ := auxiliary_optimum exact fits nonneg ended
      -- A feasible point would solve the auxiliary program at no cost.
      have free := least _ feasible.auxiliary
      rw [exact, infeasibilityLimit_zero, sum] at positive
      rw [Program.objective_auxiliary, Program.objective_auxiliary,
        sum_eq_zero (fun i row => if_pos (mem_range.mp row))] at free
      exact absurd positive (not_lt.mpr free)
    · cases other

/-- The objective of the auxiliary program is never negative, so no ray lets it fall forever. -/
theorem phaseOne_bounded {solver : Solver Rat} (exact : solver.tolerance = 0)
    (fits : program.rhs.length = program.rows.length) (nonneg : ∀ b ∈ program.rhs, 0 ≤ b)
    (ray : UnboundedRay Rat) : (phaseOne solver program).result ≠ .ok (.unbounded ray) := by
  intro returned
  obtain ⟨basis, ⟨entering, direction, _, ended⟩ | ⟨_, _, _, last⟩⟩ := phaseOne_ok returned
  · obtain ⟨start, point⟩ := Program.start_basic fits nonneg
    obtain ⟨_, distinct, ⟨y, point⟩, descends, falling⟩ :=
      run_unbounded exact start point ended
    obtain ⟨z, feasible, negative⟩ :=
      descends.below point.toFeasible distinct falling 0
    -- Along the ray the objective would pass zero.
    rw [Program.objective_auxiliary] at negative
    exact absurd negative (not_lt.mpr (sum_nonneg fun i _ => feasible.nonneg i))
  · rcases last with ⟨other, _⟩ | ⟨_, _, other, _⟩ <;> cases other

/-- A feasible end of phase one gives a basis of program columns with a basic point for rows that
imply all others. -/
theorem phaseOne_feasible {solver : Solver Rat} (exact : solver.tolerance = 0)
    (fits : program.rhs.length = program.rows.length) (nonneg : ∀ b ∈ program.rhs, 0 ≤ b)
    {basis rows : List Nat} {iterations : Nat}
    (returned : (phaseOne solver program).result = .ok (.feasible basis rows iterations)) :
    (∀ r ∈ rows, r < program.rows.length) ∧ program.Implied rows ∧
      (program.restrict rows).IsBasis basis ∧ ∃ x, (program.restrict rows).BasicPoint basis x := by
  obtain ⟨validBasis, _, kept⟩ := phaseOne_isBasis returned
  have inside : ∀ r ∈ rows, r < program.rows.length := fun r member =>
    List.mem_range.mp (kept.mem member)
  obtain ⟨last, ⟨_, _, other, _⟩ | ⟨values, iterations, ended, other⟩⟩ := phaseOne_ok returned
  · cases other
  · rcases other with ⟨other, _⟩ | ⟨columns, rows', same, small, removed⟩
    · cases other
    cases same
    obtain ⟨_, y, point, sum, -⟩ := auxiliary_optimum exact fits nonneg ended
    rw [exact, infeasibilityLimit_zero, sum, not_lt] at small
    -- The artificial columns add up to zero, so the optimum is a point of the program.
    have total : ∑ i ∈ range program.rows.length, y i = 0 :=
      le_antisymm small (sum_nonneg fun i _ => point.nonneg i)
    have zero : ∀ i < program.rows.length, y i = 0 := fun i row =>
      (sum_eq_zero_iff_of_nonneg fun i _ => point.nonneg i).mp total i (mem_range.mpr row)
    have feasible := point.toFeasible.of_auxiliary zero
    have start : program.PartialBasis _ (List.range program.rows.length) ([] ++ last) :=
      point.partialBasis (removal_start ended)
    obtain ⟨partialBasis, _, implied⟩ :=
      removeArtificials_ok exact feasible start (by simp) removed
    exact ⟨inside, fun z solves i row => implied z solves i (List.mem_range.mpr row), validBasis,
      _, partialBasis.basicPoint feasible⟩

end LinOpt.Simplex
