import Mathlib.Data.List.Chain
import Mathlib.Logic.Relation
import LinOpt.Proofs.Simplex.Step
import LinOpt.Simplex.Run

/-!
# Runs in exact arithmetic

A run evaluates one basis after the other, and the last one decides how it ends. Over the rational
numbers with the tolerance zero, each visited basis has a basic point if the first one has, so the
last basis gives an optimal point or a ray along which the objective falls forever.
-/

namespace LinOpt.Simplex

/-- One pivot leads from a basis to the next. -/
def Pivots {α : Type} [Scalar α] (pricing : PricingRule) (tolerance : α) (program : Program α)
    (basis next : List Nat) : Prop :=
  ∃ iterate entering row, Simplex.iterate pricing tolerance program basis = some iterate ∧
    iterate.decision = .pivot entering row ∧ next = basis.set row entering

/-- The bases that runs from `start` evaluate, whatever their limits are; see `visited_iff`. -/
abbrev Visited {α : Type} [Scalar α] (pricing : PricingRule) (tolerance : α) (program : Program α)
    (start basis : List Nat) : Prop :=
  Relation.ReflTransGen (Pivots pricing tolerance program) start basis

section Bases

variable {α : Type} [Scalar α]

/-- The bases that `runFrom` evaluates, in their order. -/
def basesFrom (solver : Solver α) (program : Program α) :
    (remaining : Nat) → (basis : List Nat) → List (List Nat)
  | remaining, basis =>
    match iterate solver.pricing solver.tolerance program basis with
    | some ⟨_, _, .pivot entering row⟩ =>
      match remaining with
      | 0 => [basis]
      | remaining + 1 => basis :: basesFrom solver program remaining (basis.set row entering)
    | _ => [basis]

/-- The bases that `run` evaluates. -/
def bases (solver : Solver α) (program : Program α) (basis : List Nat) : List (List Nat) :=
  basesFrom solver program solver.maxIterations basis

/-- The result of a run that evaluates its last basis after `iteration` pivots. -/
def ending (solver : Solver α) (program : Program α) (phase : Phase) (iteration : Nat)
    (basis : List Nat) : Except Failure (Run α) :=
  match iterate solver.pricing solver.tolerance program basis with
  | none => .error (.singularBasis phase iteration)
  | some ⟨values, _, .optimal⟩ =>
    .ok (.optimal basis (scatter program.numColumns basis values) iteration)
  | some ⟨_, _, .unbounded entering direction⟩ => .ok (.unbounded basis entering direction)
  | some ⟨_, _, .pivot _ _⟩ => .error (.iterationLimit phase solver.maxIterations)

variable {solver : Solver α} {program : Program α} {phase : Phase} {remaining iteration : Nat}
  {start basis last : List Nat}

/-- A run makes one pivot for each basis before the last one, which decides how it ends. Only a run
without pivots left ends at a basis that asks for one. -/
theorem runFrom_last (phase : Phase) (iteration : Nat) : ∃ before last,
    basesFrom solver program remaining basis = before ++ [last] ∧
    (runFrom solver program phase remaining iteration basis).result =
      ending solver program phase (iteration + before.length) last ∧
    ((∃ next, Pivots solver.pricing solver.tolerance program last next) →
      before.length = remaining) := by
  fun_induction basesFrom solver program remaining basis generalizing iteration with
  | case1 basis values reduced entering row evaluated =>
    exact ⟨[], basis, rfl, by simp [runFrom, ending, evaluated, Except.bind], fun _ => rfl⟩
  | case2 basis values reduced entering row evaluated remaining ih =>
    obtain ⟨before, last, all, ends, limited⟩ := ih (iteration + 1)
    refine ⟨basis :: before, last, by rw [all, List.cons_append], ?_, fun pivots => ?_⟩
    · -- The pivot of the first basis counts as an iteration of the rest of the run.
      rw [List.length_cons, Nat.add_comm before.length, ← Nat.add_assoc, ← ends, runFrom, evaluated]
      simp only [Logged.result_bind, Logged.result_emit, Except.bind]
    · rw [List.length_cons, limited pivots]
  | case3 remaining basis other =>
    refine ⟨[], basis, rfl, ?_, ?_⟩
    · unfold runFrom ending
      cases evaluated : iterate solver.pricing solver.tolerance program basis with
      | none => simp [Except.bind]
      | some iterate =>
        obtain ⟨values, reduced, decision⟩ := iterate
        cases decision with
        | optimal => rfl
        | pivot entering row => exact (other _ _ _ _ evaluated).elim
        | unbounded entering direction => rfl
    · rintro ⟨_, ⟨values, reduced, _⟩, entering, row, evaluated, rfl, _⟩
      exact (other values reduced entering row evaluated).elim

theorem head?_basesFrom : (basesFrom solver program remaining basis).head? = some basis := by
  unfold basesFrom
  split
  · split <;> rfl
  · rfl

/-- Each basis that a run evaluates is pivoted to the next one. -/
theorem isChain_basesFrom : (basesFrom solver program remaining basis).IsChain
    (Pivots solver.pricing solver.tolerance program) := by
  fun_induction basesFrom solver program remaining basis with
  | case1 => exact .singleton _
  | case2 basis values reduced entering row evaluated remaining ih =>
    refine List.isChain_cons.mpr ⟨fun next first => ?_, ih⟩
    obtain rfl := Option.some.inj (head?_basesFrom.symm.trans first)
    exact ⟨_, entering, row, evaluated, rfl, rfl⟩
  | case3 => exact .singleton _

/-- The visited bases are those that some number of pivots leads to. -/
theorem visited_iff : Visited solver.pricing solver.tolerance program start last ↔
    ∃ remaining, last ∈ basesFrom solver program remaining start := by
  constructor
  · intro visited
    induction visited using Relation.ReflTransGen.head_induction_on with
    | refl => exact ⟨0, List.mem_of_mem_head? head?_basesFrom⟩
    | head pivots _ ih =>
      obtain ⟨⟨values, reduced, _⟩, entering, row, evaluated, rfl, rfl⟩ := pivots
      obtain ⟨remaining, member⟩ := ih
      refine ⟨remaining + 1, ?_⟩
      rw [basesFrom, evaluated]
      exact List.mem_cons_of_mem _ member
  · rintro ⟨remaining, member⟩
    fun_induction basesFrom solver program remaining start with
    | case1 => rw [List.mem_singleton.mp member]
    | case2 basis values reduced entering row evaluated remaining ih =>
      rcases List.mem_cons.mp member with rfl | member
      · exact .refl
      · exact .head ⟨_, entering, row, evaluated, rfl, rfl⟩ (ih member)
    | case3 => rw [List.mem_singleton.mp member]

/-- Every basis that a run evaluates is visited. -/
theorem visited_of_mem (member : basis ∈ bases solver program start) :
    Visited solver.pricing solver.tolerance program start basis :=
  visited_iff.mpr ⟨_, member⟩

theorem run_last (solver : Solver α) (program : Program α) (phase : Phase) (start : List Nat) :
    ∃ before last, bases solver program start = before ++ [last] ∧
      (run solver program phase start).result =
        ending solver program phase before.length last ∧
      ((∃ next, Pivots solver.pricing solver.tolerance program last next) →
        before.length = solver.maxIterations) := by
  have ends := @runFrom_last α _ solver program solver.maxIterations start phase 0
  simp only [Nat.zero_add] at ends
  exact ends

/-- A run that returns has evaluated a basis that needs no pivot. -/
theorem run_ok {outcome : Run α}
    (returned : (run solver program phase start).result = .ok outcome) :
    ∃ last iterate, Visited solver.pricing solver.tolerance program start last ∧
      Simplex.iterate solver.pricing solver.tolerance program last = some iterate ∧
      match iterate.decision with
      | .optimal => ∃ iterations,
        outcome = .optimal last (scatter program.numColumns last iterate.values) iterations
      | .pivot _ _ => False
      | .unbounded entering direction => outcome = .unbounded last entering direction := by
  obtain ⟨before, last, all, ends, _⟩ := run_last solver program phase start
  have visited := visited_of_mem (all ▸ List.mem_append_right before (List.mem_singleton_self last))
  rw [ends, ending] at returned
  split at returned
  · cases returned
  next evaluated => exact ⟨last, _, visited, evaluated, _, (Except.ok.inj returned).symm⟩
  next evaluated => exact ⟨last, _, visited, evaluated, (Except.ok.inj returned).symm⟩
  · cases returned

/-- An optimal run has visited its last basis, whose iteration finds no entering column. -/
theorem run_optimal_visited {values : List α} {iterations : Nat}
    (returned : (run solver program phase start).result = .ok (.optimal last values iterations)) :
    Visited solver.pricing solver.tolerance program start last ∧
      ∃ iterate, Simplex.iterate solver.pricing solver.tolerance program last = some iterate ∧
        iterate.decision = .optimal ∧ values = scatter program.numColumns last iterate.values := by
  obtain ⟨last, iterate, visited, evaluated, decision⟩ := run_ok returned
  split at decision
  next optimal =>
    obtain ⟨_, same⟩ := decision
    cases same
    exact ⟨visited, iterate, evaluated, optimal, rfl⟩
  · exact decision.elim
  · cases decision

/-- An unbounded run has visited its last basis, whose iteration finds the direction. -/
theorem run_unbounded_visited {entering : Nat} {direction : List α}
    (returned : (run solver program phase start).result =
      .ok (.unbounded last entering direction)) :
    Visited solver.pricing solver.tolerance program start last ∧
      ∃ iterate, Simplex.iterate solver.pricing solver.tolerance program last = some iterate ∧
        iterate.decision = .unbounded entering direction := by
  obtain ⟨last, iterate, visited, evaluated, decision⟩ := run_ok returned
  split at decision
  · obtain ⟨_, same⟩ := decision
    cases same
  · exact decision.elim
  next unbounded =>
    cases decision
    exact ⟨visited, iterate, evaluated, unbounded⟩

/-- A run that fails has evaluated a basis without an inverse, or made as many pivots as it may. -/
theorem run_error {reason : Failure}
    (returned : (run solver program phase start).result = .error reason) :
    (∃ last ∈ bases solver program start, ∃ iteration,
        Dense.invert (program.basisMatrix last) = none ∧
        reason = .singularBasis phase iteration) ∨
      reason = .iterationLimit phase solver.maxIterations := by
  obtain ⟨before, last, all, ends, _⟩ := run_last solver program phase start
  have member : last ∈ bases solver program start := by simp [all]
  rw [ends, ending] at returned
  split at returned
  next failed =>
    exact Or.inl ⟨last, member, _, iterate_none failed, (Except.error.inj returned).symm⟩
  · cases returned
  · cases returned
  · exact Or.inr (Except.error.inj returned).symm

/-- A run that stops at its limit asks for a pivot at every basis it evaluates, the last one too. -/
theorem run_limit {phase' : Phase} {limit : Nat}
    (stopped : (run solver program phase start).result = .error (.iterationLimit phase' limit)) :
    (bases solver program start).length = solver.maxIterations + 1 ∧
      ∀ b ∈ bases solver program start,
        ∃ next, Pivots solver.pricing solver.tolerance program b next := by
  obtain ⟨before, last, all, ends, limited⟩ := run_last solver program phase start
  have pivoted : ∃ next, Pivots solver.pricing solver.tolerance program last next := by
    rw [ends, ending] at stopped
    split at stopped
    · cases stopped
    · cases stopped
    · cases stopped
    next evaluated => exact ⟨_, _, _, _, evaluated, rfl, rfl⟩
  rw [all]
  refine ⟨by rw [List.length_append, limited pivoted, List.length_singleton], fun b member => ?_⟩
  obtain ⟨next, pivots⟩ := pivoted
  -- With the basis that would come next, every basis of the run has a successor in the chain.
  have chain : ((before ++ [last]) ++ [next]).IsChain
      (Pivots solver.pricing solver.tolerance program) :=
    List.isChain_append.mpr ⟨all ▸ isChain_basesFrom, .singleton next, by simpa using pivots⟩
  obtain ⟨i, small, rfl⟩ := List.getElem_of_mem member
  have step := List.isChain_iff_getElem.mp chain i (by simpa using small)
  rw [List.getElem_append_left small] at step
  exact ⟨_, step⟩

end Bases

section Shape

variable {α : Type} [Scalar α] {pricing : PricingRule} {tolerance : α} {program : Program α}
  {start basis next last : List Nat}

/-- What every pivot is made of: a column outside the basis, and a row in which its direction has an
entry above the tolerance. -/
theorem Pivots.exchange (pivots : Pivots pricing tolerance program basis next) :
    ∃ inverse entering row entry, Dense.invert (program.basisMatrix basis) = some inverse ∧
      next = basis.set row entering ∧ entering < program.numColumns ∧ entering ∉ basis ∧
      (Dense.mulVec inverse (Dense.column program.rows entering))[row]? = some entry ∧
      ¬ entry ≤ tolerance := by
  obtain ⟨iterate, entering, row, evaluated, decision, rfl⟩ := pivots
  obtain ⟨inverse, inverted, _, reduced, choice⟩ := iterate_some evaluated
  rw [decision, reduced] at choice
  obtain ⟨enters, leaves⟩ := choice
  obtain ⟨column, outside⟩ := findEntering_reducedCosts enters
  obtain ⟨entry, _, found, _, large⟩ := findLeaving_limits leaves
  exact ⟨inverse, entering, row, entry, inverted, rfl, column, outside, found, large⟩

/-- A run keeps one column for each row, and no column twice. -/
theorem Visited.isBasis (visited : Visited pricing tolerance program start last)
    (valid : program.IsBasis start) (distinct : start.Nodup) :
    program.IsBasis last ∧ last.Nodup := by
  induction visited with
  | refl => exact ⟨valid, distinct⟩
  | tail _ pivots ih =>
    obtain ⟨_, entering, row, _, _, rfl, column, outside, _⟩ := pivots.exchange
    exact ⟨ih.1.set column row, ih.2.set outside⟩

end Shape

theorem scatter_map {basis : List Nat} {x : Nat → Rat} (nonneg : ∀ j, 0 ≤ x j)
    (support : ∀ j, j ∉ basis → x j = 0) (n : Nat) :
    scatter n basis (basis.map x) = (List.range n).map x := by
  refine List.map_congr_left fun j _ => ?_
  -- Scattered values are cut off at zero, which does nothing to a point that is not negative.
  rw [lookup_zip_map]
  by_cases basic : j ∈ basis
  · rw [if_pos basic]
    dsimp only
    split
    next small => exact le_antisymm (nonneg j) small
    · rfl
  · rw [if_neg basic]
    exact (support j basic).symm

variable {program : Program Rat} {start basis next last : List Nat} {pricing : PricingRule}
  {x : Nat → Rat}

/-- What a pivot is made of: the entering column with its descending direction, and the row in which
the ratio test stops. -/
theorem Pivots.parts (pivots : Pivots pricing 0 program basis next)
    (valid : program.IsBasis basis) (point : program.BasicPoint basis x) :
    ∃ inverse entering row direction,
      Dense.invert (program.basisMatrix basis) = some inverse ∧ basis.Nodup ∧
      next = basis.set row entering ∧
      findEntering pricing 0 (reducedCosts program basis
        (Dense.vecMul (basis.map program.cost) inverse)) = some entering ∧
      program.Descends basis entering direction ∧
      findLeaving pricing 0 (basis.map x) direction basis = some row := by
  obtain ⟨iterate, entering, row, evaluated, decision, rfl⟩ := pivots
  obtain ⟨inverse, inverted, values, reduced, choice⟩ := iterate_some evaluated
  rw [decision] at choice
  obtain ⟨enters, leaves⟩ := choice
  rw [reduced] at enters
  rw [values, point.values_eq valid inverted] at leaves
  exact ⟨inverse, entering, row, _, inverted, valid.nodup inverted, rfl, enters,
    Program.descends le_rfl valid inverted enters, leaves⟩

/-- A pivot leads from a basis with a basic point to a basis with a basic point. It does not raise
the objective, and keeps the point if it keeps the objective. -/
theorem Pivots.basicPoint (pivots : Pivots pricing 0 program basis next)
    (valid : program.IsBasis basis) (point : program.BasicPoint basis x) :
    program.IsBasis next ∧ ∃ y, program.BasicPoint next y ∧
      program.objective y ≤ program.objective x ∧
      (program.objective y = program.objective x → y = x) := by
  obtain ⟨_, entering, row, direction, _, distinct, rfl, _, descends, leaves⟩ :=
    pivots.parts valid point
  obtain ⟨inside, entry, _, positive, after⟩ := descends.pivot point distinct leaves
  have forth : 0 ≤ x basis[row] / entry := div_nonneg (point.nonneg _) positive.le
  refine ⟨valid.set descends.column row, _, after, ?_, ?_⟩
  · rw [Program.objective_add_mul]
    have change := mul_nonpos_of_nonneg_of_nonpos forth descends.falls.le
    linarith
  · intro level
    -- The objective falls along the ray, so only a step of length zero keeps it.
    rw [Program.objective_add_mul, add_eq_left] at level
    have still := (mul_eq_zero.mp level).resolve_right descends.falls.ne
    funext j
    rw [still, zero_mul, add_zero]

theorem Visited.basicPoint (visited : Visited pricing 0 program start last)
    (valid : program.IsBasis start) (point : program.BasicPoint start x) :
    program.IsBasis last ∧ ∃ y, program.BasicPoint last y ∧
      program.objective y ≤ program.objective x ∧
      (program.objective y = program.objective x → y = x) := by
  induction visited with
  | refl => exact ⟨valid, x, point, le_rfl, fun _ => rfl⟩
  | tail _ pivots ih =>
    obtain ⟨valid, y, point, below, level⟩ := ih
    obtain ⟨valid, z, after, below', level'⟩ := pivots.basicPoint valid point
    refine ⟨valid, z, after, below'.trans below, fun same => ?_⟩
    -- Both parts of the way keep the objective when the whole does.
    have upper := level (le_antisymm below (same.ge.trans below'))
    rw [← upper] at same ⊢
    exact level' same

variable {solver : Solver Rat} {phase : Phase}

/-- An optimal run ends at a basic point with the least objective of all feasible points. -/
theorem run_optimal (exact : solver.tolerance = 0) (valid : program.IsBasis start)
    (point : program.BasicPoint start x) {values : List Rat} {iterations : Nat}
    (returned : (run solver program phase start).result = .ok (.optimal basis values iterations)) :
    program.IsBasis basis ∧ basis.Nodup ∧ ∃ x, program.BasicPoint basis x ∧
      values = (List.range program.numColumns).map x ∧
      ∀ z, program.Feasible z → program.objective x ≤ program.objective z := by
  obtain ⟨visited, iterate, evaluated, optimal, rfl⟩ := run_optimal_visited returned
  rw [exact] at visited evaluated
  obtain ⟨valid, x, point, _⟩ := Visited.basicPoint visited valid point
  obtain ⟨inverse, inverted, computed, -, -⟩ := iterate_some evaluated
  refine ⟨valid, valid.nodup inverted, x, point, ?_, ?_⟩
  · rw [computed, point.values_eq valid inverted, scatter_map point.nonneg point.support]
  · exact fun z feasible => point.optimal valid evaluated optimal feasible

/-- An unbounded run ends at a basis with a basic point, from which a ray never leaves the feasible
points while the objective falls. -/
theorem run_unbounded (exact : solver.tolerance = 0) (valid : program.IsBasis start)
    (point : program.BasicPoint start x) {entering : Nat} {direction : List Rat}
    (returned : (run solver program phase start).result =
      .ok (.unbounded basis entering direction)) :
    program.IsBasis basis ∧ basis.Nodup ∧ (∃ x, program.BasicPoint basis x) ∧
      program.Descends basis entering direction ∧ ∀ entry ∈ direction, entry ≤ 0 := by
  obtain ⟨visited, iterate, evaluated, unbounded⟩ := run_unbounded_visited returned
  rw [exact] at visited evaluated
  obtain ⟨valid, x, point, _⟩ := Visited.basicPoint visited valid point
  obtain ⟨inverse, inverted, computed, reduced, choice⟩ := iterate_some evaluated
  rw [unbounded, reduced] at choice
  obtain ⟨enters, rfl, stays⟩ := choice
  have descends := Program.descends le_rfl valid inverted enters
  rw [computed, point.values_eq valid inverted] at stays
  exact ⟨valid, valid.nodup inverted, ⟨x, point⟩, descends,
    findLeaving_none (by rw [descends.parallel, List.length_map]) stays⟩

end LinOpt.Simplex
