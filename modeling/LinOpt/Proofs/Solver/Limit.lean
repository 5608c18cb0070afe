import LinOpt.Proofs.Solver.Phases
import LinOpt.Scalar.Float

/-!
# The limit on pivots

The limit of a solver cuts a run short and has no other effect. A solve that comes to an end needs a
number of pivots in each phase: with a limit of at least both numbers it ends in the same way,
events included, and with a smaller one it stops in the first phase that needs more pivots than the
limit allows. This holds for every kind of scalar, so it holds for floating-point numbers exactly.
-/

namespace LinOpt

/-- The same solver with another limit. -/
def Solver.capped {α : Type} (solver : Solver α) (cap : Nat) : Solver α :=
  { solver with maxIterations := cap }

/-! ### Computations under a limit -/

namespace Logged

variable {event error value next : Type} {first : Logged event error value}

/-- Only what follows the value counts. -/
theorem bind_congr {f g : value → Logged event error next} {v : value}
    (ended : first.result = .ok v) (same : f v = g v) : first >>= f = first >>= g := by
  show andThen first f = andThen first g
  simp only [andThen, ended, same]

/-- What follows an error does not count. -/
theorem bind_congr_error {f g : value → Logged event error next} {e : error}
    (failed : first.result = .error e) : first >>= f = first >>= g := by
  show andThen first f = andThen first g
  simp only [andThen, failed]

end Logged

/-- The pivots of a single phase. -/
def Phase.pivots : Phase → Nat → Iterations
  | .one, count => ⟨count, 0⟩
  | .two, count => ⟨0, count⟩

section Settled

variable {event error value next : Type} {limit : Phase → Nat → error}

/-- With the limit `cap` a computation makes the given numbers of pivots and does not stop at the
limit. It ends in the same way under every limit that allows these pivots. Under any other limit it
stops in the first phase that needs more. -/
structure Settled (limit : Phase → Nat → error) (computation : Nat → Logged event error value)
    (cap : Nat) (pivots : Iterations) : Prop where
  phaseOne_le : pivots.phaseOne ≤ cap
  phaseTwo_le : pivots.phaseTwo ≤ cap
  enough : ∀ room, pivots.phaseOne ≤ room → pivots.phaseTwo ≤ room →
    computation room = computation cap
  shortOne : ∀ room, room < pivots.phaseOne →
    (computation room).result = .error (limit .one room)
  shortTwo : ∀ room, pivots.phaseOne ≤ room → room < pivots.phaseTwo →
    (computation room).result = .error (limit .two room)

namespace Settled

variable {computation : Nat → Logged event error value} {cap : Nat}

/-- What does not depend on the limit needs no pivots. -/
theorem const (logged : Logged event error value) (cap : Nat) :
    Settled limit (fun _ => logged) cap .none where
  phaseOne_le := Nat.zero_le _
  phaseTwo_le := Nat.zero_le _
  enough _ _ _ := rfl
  shortOne _ short := absurd short (Nat.not_lt_zero _)
  shortTwo _ _ short := absurd short (Nat.not_lt_zero _)

theorem mapError {error' : Type} {pivots : Iterations} (f : error → error')
    (settled : Settled limit computation cap pivots) :
    Settled (fun phase room => f (limit phase room)) (fun room => (computation room).mapError f)
      cap pivots where
  phaseOne_le := settled.phaseOne_le
  phaseTwo_le := settled.phaseTwo_le
  enough room one two := by rw [settled.enough room one two]
  shortOne room short := by
    rw [Logged.result_mapError, settled.shortOne room short]
    rfl
  shortTwo room one short := by
    rw [Logged.result_mapError, settled.shortTwo room one short]
    rfl

/-- What follows a computation without using the limit may depend on its value. -/
theorem followed {rest : Nat → value → Logged event error next} {pivots : Iterations}
    (settled : Settled limit computation cap pivots) (same : ∀ room, rest room = rest cap) :
    Settled limit (fun room => computation room >>= rest room) cap pivots where
  phaseOne_le := settled.phaseOne_le
  phaseTwo_le := settled.phaseTwo_le
  enough room one two := by rw [settled.enough room one two, same]
  shortOne room short := by
    rw [Logged.result_bind, settled.shortOne room short]
    rfl
  shortTwo room one short := by
    rw [Logged.result_bind, settled.shortTwo room one short]
    rfl

/-- What goes before a computation may not use the limit. -/
theorem preceded {first : Nat → Logged event error value}
    {rest : Nat → value → Logged event error next} {pivots : Iterations} {v : value}
    (settled : Settled limit (fun room => rest room v) cap pivots)
    (same : ∀ room, first room = first cap) (ended : (first cap).result = .ok v) :
    Settled limit (fun room => first room >>= rest room) cap pivots where
  phaseOne_le := settled.phaseOne_le
  phaseTwo_le := settled.phaseTwo_le
  enough room one two := by
    rw [same room]
    exact Logged.bind_congr ended (settled.enough room one two)
  shortOne room short := by
    rw [Logged.result_bind, same, ended]
    exact settled.shortOne room short
  shortTwo room one short := by
    rw [Logged.result_bind, same, ended]
    exact settled.shortTwo room one short

/-- After the pivots of phase one only those of phase two are left. -/
theorem bind {first : Nat → Logged event error value} {rest : Nat → value → Logged event error next}
    {one two : Nat} {v : value} (before : Settled limit first cap ⟨one, 0⟩)
    (ended : (first cap).result = .ok v)
    (after : Settled limit (fun room => rest room v) cap ⟨0, two⟩) :
    Settled limit (fun room => first room >>= rest room) cap ⟨one, two⟩ where
  phaseOne_le := before.phaseOne_le
  phaseTwo_le := after.phaseTwo_le
  enough room oneFits twoFits := by
    rw [before.enough room oneFits (Nat.zero_le _)]
    exact Logged.bind_congr ended (after.enough room (Nat.zero_le _) twoFits)
  shortOne room short := by
    rw [Logged.result_bind, before.shortOne room short]
    rfl
  shortTwo room oneFits short := by
    rw [Logged.result_bind, before.enough room oneFits (Nat.zero_le _), ended]
    exact after.shortTwo room (Nat.zero_le _) short

/-- After an error nothing is left to do. -/
theorem bind_error {first : Nat → Logged event error value}
    {rest : Nat → value → Logged event error next} {pivots : Iterations} {e : error}
    (before : Settled limit first cap pivots) (failed : (first cap).result = .error e) :
    Settled limit (fun room => first room >>= rest room) cap pivots where
  phaseOne_le := before.phaseOne_le
  phaseTwo_le := before.phaseTwo_le
  enough room oneFits twoFits := by
    rw [before.enough room oneFits twoFits]
    exact Logged.bind_congr_error failed
  shortOne room short := by
    rw [Logged.result_bind, before.shortOne room short]
    rfl
  shortTwo room oneFits short := by
    rw [Logged.result_bind, before.shortTwo room oneFits short]
    rfl

end Settled

end Settled

/-! ### Runs -/

namespace Simplex

variable {α : Type} [Scalar α] {solver : Solver α} {program : Program α} {phase : Phase}

/-- A run that does not stop at its limit makes a number of pivots, by induction on the pivots left.
With as many left or more it ends in the same way, and with fewer it stops at the limit. -/
theorem runFrom_pivots {remaining iteration : Nat} {basis : List Nat}
    (ends : ∀ limit, (runFrom solver program phase remaining iteration basis).result ≠
      .error (.iterationLimit phase limit)) :
    ∃ pivots, pivots ≤ remaining ∧
      (∀ last values total,
        (runFrom solver program phase remaining iteration basis).result =
          .ok (.optimal last values total) → total = iteration + pivots) ∧
      ∀ cap room,
        (pivots ≤ room → runFrom (solver.capped cap) program phase room iteration basis =
          runFrom solver program phase remaining iteration basis) ∧
        (room < pivots → (runFrom (solver.capped cap) program phase room iteration basis).result =
          .error (.iterationLimit phase cap)) := by
  fun_induction runFrom solver program phase remaining iteration basis with
  | case1 remaining iteration basis failed =>
    refine ⟨0, Nat.zero_le _, by simp [Except.bind],
      fun cap room => ⟨fun _ => ?_, fun refused => ?_⟩⟩
    · unfold runFrom
      simp only [Solver.capped, failed]
    · exact absurd refused (Nat.not_lt_zero room)
  | case2 remaining iteration basis values reduced evaluated =>
    refine ⟨0, Nat.zero_le _, ?_, fun cap room => ⟨fun _ => ?_, fun refused => ?_⟩⟩
    · intro last values' total returned
      cases returned
      rfl
    · unfold runFrom
      simp only [Solver.capped, evaluated]
    · exact absurd refused (Nat.not_lt_zero room)
  | case3 remaining iteration basis values reduced entering direction evaluated =>
    refine ⟨0, Nat.zero_le _, ?_, fun cap room => ⟨fun _ => ?_, fun refused => ?_⟩⟩
    · intro last values' total returned
      cases returned
    · unfold runFrom
      simp only [Solver.capped, evaluated]
    · exact absurd refused (Nat.not_lt_zero room)
  | case4 => exact absurd rfl (ends solver.maxIterations)
  | case5 iteration basis values reduced entering row evaluated remaining ih =>
    obtain ⟨pivots, fits, counted, settled⟩ := ih fun limit => by
      simpa [Except.bind] using ends limit
    refine ⟨pivots + 1, Nat.succ_le_succ fits, fun last values' total returned => ?_,
      fun cap room => ?_⟩
    · have rest := counted last values' total (by simpa [Except.bind] using returned)
      omega
    -- The pivot itself takes one of the pivots that are left.
    cases room with
    | zero =>
      refine ⟨fun allowed => absurd allowed (Nat.not_succ_le_zero pivots), fun _ => ?_⟩
      unfold runFrom
      simp [Solver.capped, evaluated, Except.bind]
    | succ room =>
      obtain ⟨enough, short⟩ := settled cap room
      refine ⟨fun allowed => ?_, fun refused => ?_⟩
      · rw [runFrom]
        simp only [Solver.capped, evaluated]
        exact Logged.bind_congr rfl (enough (Nat.le_of_succ_le_succ allowed))
      · have stopped := short (Nat.lt_of_succ_lt_succ refused)
        unfold runFrom
        simpa [Solver.capped, evaluated, Except.bind] using stopped

/-- A run that ends short of its limit. -/
theorem run_settled {basis : List Nat} {cap : Nat}
    (ends : ∀ limit, (run (solver.capped cap) program phase basis).result ≠
      .error (.iterationLimit phase limit)) :
    ∃ pivots,
      Settled .iterationLimit (fun room => run (solver.capped room) program phase basis) cap
        (phase.pivots pivots) ∧
      ∀ last values total, (run (solver.capped cap) program phase basis).result =
        .ok (.optimal last values total) → total = pivots := by
  obtain ⟨pivots, fits, counted, settled⟩ := runFrom_pivots ends
  refine ⟨pivots, ?_, fun last values total returned => ?_⟩
  · have enough (room : Nat) (allowed : pivots ≤ room) := (settled room room).1 allowed
    have short (room : Nat) (refused : room < pivots) := (settled room room).2 refused
    cases phase with
    | one =>
      exact ⟨fits, Nat.zero_le _, fun room one _ => enough room one, short, fun _ _ => nofun⟩
    | two =>
      exact ⟨Nat.zero_le _, fits, fun room _ two => enough room two, fun _ => nofun,
        fun room _ => short room⟩
  · simpa using counted last values total returned

theorem phaseOne_settled {cap : Nat}
    (ends : ∀ limit, (phaseOne (solver.capped cap) program).result ≠
      .error (.iterationLimit .one limit)) :
    ∃ pivots,
      Settled .iterationLimit (fun room => phaseOne (solver.capped room) program) cap ⟨pivots, 0⟩ ∧
      ∀ basis rows iterations, (phaseOne (solver.capped cap) program).result =
        .ok (.feasible basis rows iterations) → iterations = pivots := by
  have runs : ∀ limit, (run (solver.capped cap) program.auxiliary .one
      (List.range program.rows.length)).result ≠ .error (.iterationLimit .one limit) := by
    intro limit stopped
    refine ends limit ?_
    unfold phaseOne
    rw [Logged.result_bind, stopped]
    rfl
  obtain ⟨pivots, settled, counted⟩ := run_settled runs
  refine ⟨pivots, ?_, fun basis rows iterations returned => ?_⟩
  · -- Only the run knows the limit.
    unfold phaseOne
    exact settled.followed fun _ => rfl
  obtain ⟨last, ⟨_, _, other, _⟩ | ⟨values, _, ended, ⟨other, _⟩ | ⟨_, _, same, _⟩⟩⟩ :=
    phaseOne_ok returned
  · cases other
  · cases other
  · cases same
    exact counted last values iterations ended

end Simplex

namespace Solver

open Simplex

variable {α β : Type} [Scalar α] [Endpoint β α] {solver : Solver α} {problem : Problem α β}

theorem phaseTwo_settled {cap iterations : Nat} {basis rows : List Nat}
    (ends : ∀ limit, ((solver.capped cap).phaseTwo problem basis rows iterations).result ≠
      .error (.iterationLimit .two limit)) :
    ∃ pivots,
      Settled .iterationLimit
        (fun room => (solver.capped room).phaseTwo problem basis rows iterations) cap ⟨0, pivots⟩ ∧
      ∀ solution, ((solver.capped cap).phaseTwo problem basis rows iterations).result =
        .ok (.optimal solution) → solution.iterations = ⟨iterations, pivots⟩ := by
  have runs : ∀ limit, (run (solver.capped cap) ((Program.ofProblem problem).restrict rows) .two
      basis).result ≠ .error (.iterationLimit .two limit) := by
    intro limit stopped
    refine ends limit ?_
    unfold phaseTwo
    rw [Logged.result_bind, stopped]
    rfl
  obtain ⟨pivots, settled, counted⟩ := run_settled runs
  refine ⟨pivots, ?_, fun solution returned => ?_⟩
  · unfold phaseTwo
    exact settled.followed fun _ => rfl
  · obtain ⟨last, ⟨values, more, ended, same⟩ | ⟨_, _, _, other⟩⟩ := phaseTwo_ok returned
    · cases same
      rw [counted last values more ended]
    · cases other

/-- Both phases one after the other. -/
theorem solvePhases_settled {cap : Nat}
    (ends : ∀ phase limit, ((solver.capped cap).solvePhases problem).result ≠
      .error (.iterationLimit phase limit)) :
    ∃ pivots,
      Settled .iterationLimit (fun room => (solver.capped room).solvePhases problem) cap pivots ∧
      ∀ solution, ((solver.capped cap).solvePhases problem).result = .ok (.optimal solution) →
        solution.iterations = pivots := by
  have searches : ∀ limit, (phaseOne (solver.capped cap) (Program.ofProblem problem)).result ≠
      .error (.iterationLimit .one limit) := by
    intro limit stopped
    refine ends .one limit ?_
    simp only [solvePhases, Logged.result_bind, stopped]
    rfl
  obtain ⟨one, settled, counted⟩ := phaseOne_settled searches
  cases found : (phaseOne (solver.capped cap) (Program.ofProblem problem)).result with
  | error reason =>
    refine ⟨⟨one, 0⟩, ?_, fun solution returned => ?_⟩
    · exact .preceded (v := ()) (settled.bind_error found) (fun _ => rfl) rfl
    · simp only [solvePhases, Logged.result_bind, found] at returned
      cases returned
  | ok last =>
    cases last with
    | feasible basis rows iterations =>
      have optimizes : ∀ limit,
          ((solver.capped cap).phaseTwo problem basis rows iterations).result ≠
            .error (.iterationLimit .two limit) := by
        intro limit stopped
        refine ends .two limit ?_
        simp only [solvePhases, Logged.result_bind, found]
        exact stopped
      obtain ⟨two, after, counts⟩ := phaseTwo_settled optimizes
      refine ⟨⟨one, two⟩, ?_, fun solution returned => ?_⟩
      · exact .preceded (v := ()) (settled.bind found after) (fun _ => rfl) rfl
      · simp only [solvePhases, Logged.result_bind, found] at returned
        rw [counts solution returned, counted basis rows iterations found]
    | _ =>
      -- Without a feasible basis there is no phase two.
      refine ⟨⟨one, 0⟩, ?_, fun solution returned => ?_⟩
      · exact .preceded (v := ()) (settled.bind found (.const _ cap)) (fun _ => rfl) rfl
      · simp only [solvePhases, Logged.result_bind, found] at returned
        cases returned

/-- A solve of a problem in standard form: the checks before both phases do not know the limit. -/
theorem solveStandard_settled {cap : Nat}
    (ends : ∀ phase limit, ((solver.capped cap).solveStandard problem).result ≠
      .error (.failure (.iterationLimit phase limit))) :
    ∃ pivots,
      Settled (fun phase room => .failure (.iterationLimit phase room))
        (fun room => (solver.capped room).solveStandard problem) cap pivots ∧
      ∀ solution, ((solver.capped cap).solveStandard problem).result = .ok (.optimal solution) →
        solution.iterations = pivots := by
  unfold solveStandard at ends ⊢
  cases valid : problem.validate with
  | error reason =>
    refine ⟨.none, .bind_error (.const _ cap) (e := .problem reason) rfl, ?_⟩
    exact fun solution returned => nomatch returned
  | ok _ =>
    by_cases standard : problem.isStandardForm = true
    · simp only [if_pos standard] at ends ⊢
      have phases : ∀ phase limit, ((solver.capped cap).solvePhases problem).result ≠
          .error (.iterationLimit phase limit) := by
        intro phase limit stopped
        refine ends phase limit ?_
        simp [valid, Except.mapError, Except.bind, stopped]
      obtain ⟨pivots, settled, counted⟩ := solvePhases_settled phases
      refine ⟨pivots, .preceded (v := ()) (settled.mapError SolveError.failure) (fun _ => rfl) rfl,
        fun solution returned => ?_⟩
      refine counted solution ?_
      cases ended : ((solver.capped cap).solvePhases problem).result with
      | error reason => simp [Except.mapError, Except.bind, ended] at returned
      | ok outcome => simpa [valid, Except.mapError, Except.bind, ended] using returned
    · simp only [if_neg standard]
      refine ⟨.none, .preceded (v := ()) (.const _ cap) (fun _ => rfl) rfl, ?_⟩
      exact fun solution returned => nomatch returned

/-- A solve of a problem in any form: neither the way into standard form nor the way back knows the
limit. -/
theorem solve_settled {cap : Nat}
    (ends : ∀ phase limit, ((solver.capped cap).solve problem).result ≠
      .error (.failure (.iterationLimit phase limit))) :
    ∃ pivots,
      Settled (fun phase room => .failure (.iterationLimit phase room))
        (fun room => (solver.capped room).solve problem) cap pivots ∧
      ∀ solution, ((solver.capped cap).solve problem).result = .ok solution →
        solution.status = .optimal → solution.iterations = pivots := by
  unfold solve at ends ⊢
  cases normalized : problem.normalize.result with
  | error reason =>
    have failed : (problem.normalize.mapError SolveError.normalize).result =
        .error (.normalize reason) := by
      rw [Logged.result_mapError, normalized]
      rfl
    refine ⟨.none, .bind_error (.const _ cap) failed, fun solution returned => ?_⟩
    rw [Logged.result_bind, failed] at returned
    cases returned
  | ok form =>
    have ended : (problem.normalize.mapError SolveError.normalize).result = .ok form := by
      rw [Logged.result_mapError, normalized]
      rfl
    have solves : ∀ phase limit, ((solver.capped cap).solveStandard form.problem).result ≠
        .error (.failure (.iterationLimit phase limit)) := by
      intro phase limit stopped
      refine ends phase limit ?_
      rw [Logged.result_bind, ended]
      simp [Except.bind, stopped]
    obtain ⟨pivots, settled, counted⟩ := solveStandard_settled solves
    refine ⟨pivots, .preceded (settled.followed fun _ => rfl) (fun _ => rfl) ended, ?_⟩
    intro solution returned optimal
    rw [Logged.result_bind, ended] at returned
    cases outcome : ((solver.capped cap).solveStandard form.problem).result with
    | error reason => simp [Except.bind, outcome] at returned
    | ok outcome' =>
      simp only [Except.bind, Logged.result_bind, outcome, Logged.result_pure,
        Except.ok.injEq] at returned
      subst returned
      cases outcome' with
      | optimal basic => exact counted basic outcome
      | infeasible => cases optimal
      | unbounded ray => cases optimal

end Solver

/-! ### The limit only cuts -/

/-- The pivots of an outcome that has an optimum. -/
def Outcome.pivots? {α : Type} : Outcome α → Option Iterations
  | .optimal solution => some solution.iterations
  | .infeasible => none
  | .unbounded _ => none

theorem Outcome.exists_of_pivots? {error α : Type} {result : Except error (Outcome α)}
    {pivots : Iterations} (found : result.toOption.bind Outcome.pivots? = some pivots) :
    ∃ solution, result = .ok (.optimal solution) ∧ solution.iterations = pivots := by
  cases result with
  | error reason => cases found
  | ok outcome =>
    cases outcome with
    | optimal solution => exact ⟨solution, rfl, Option.some.inj found⟩
    | infeasible => cases found
    | unbounded ray => cases found

/-- The pivots of a solution that is optimal. -/
def Solution.pivots? {α β : Type} (solution : Solution β α) : Option Iterations :=
  if solution.status = .optimal then some solution.iterations else none

/-- The limit cuts a computation and does not change it: what ends without it ends in the same way
under every larger limit, and the numbers of pivots of an optimum say where every limit cuts. -/
structure CutByLimit {event error value : Type} (limit : Phase → Nat → error)
    (pivots? : value → Option Iterations) (computation : Nat → Logged event error value) :
    Prop where
  unchanged : ∀ cap room, cap ≤ room →
    (∀ phase used, (computation cap).result ≠ .error (limit phase used)) →
      computation room = computation cap
  optimal : ∀ cap outcome pivots, (computation cap).result = .ok outcome →
    pivots? outcome = some pivots → ∀ room,
      (max pivots.phaseOne pivots.phaseTwo ≤ room → computation room = computation cap) ∧
      (room < pivots.phaseOne → (computation room).result = .error (limit .one room)) ∧
      (pivots.phaseOne ≤ room → room < pivots.phaseTwo →
        (computation room).result = .error (limit .two room))

/-- It is enough that a computation settles whenever it ends without the limit. -/
theorem CutByLimit.of_settled {event error value : Type} {limit : Phase → Nat → error}
    {pivots? : value → Option Iterations} {computation : Nat → Logged event error value}
    (settles : ∀ cap, (∀ phase used, (computation cap).result ≠ .error (limit phase used)) →
      ∃ pivots, Settled limit computation cap pivots ∧
        ∀ outcome counted, (computation cap).result = .ok outcome →
          pivots? outcome = some counted → counted = pivots) :
    CutByLimit limit pivots? computation where
  unchanged cap room larger ends := by
    obtain ⟨pivots, settled, _⟩ := settles cap ends
    exact settled.enough room (settled.phaseOne_le.trans larger)
      (settled.phaseTwo_le.trans larger)
  optimal cap outcome pivots returned optimum room := by
    obtain ⟨_, settled, counted⟩ := settles cap fun phase used stopped => by
      rw [returned] at stopped
      cases stopped
    obtain rfl := counted outcome pivots returned optimum
    refine ⟨fun fits => ?_, settled.shortOne room, settled.shortTwo room⟩
    exact settled.enough room (le_of_max_le_left fits) (le_of_max_le_right fits)

namespace Solver

open Simplex

variable {α β : Type} [Scalar α] [Endpoint β α]

/-- Whatever the numbers are, the limit only cuts a solve, in standard form and in any form. -/
theorem limit_only_cuts (solver : Solver α) (problem : Problem α β) :
    CutByLimit (fun phase cap => .failure (.iterationLimit phase cap)) Outcome.pivots?
        (fun cap => (solver.capped cap).solveStandard problem) ∧
      CutByLimit (fun phase cap => .failure (.iterationLimit phase cap)) Solution.pivots?
        (fun cap => (solver.capped cap).solve problem) := by
  constructor
  · refine .of_settled fun cap ends => ?_
    obtain ⟨pivots, settled, counted⟩ := solveStandard_settled ends
    refine ⟨pivots, settled, fun outcome claimed returned optimum => ?_⟩
    cases outcome with
    | optimal solution =>
      cases optimum
      exact counted solution returned
    | infeasible => cases optimum
    | unbounded ray => cases optimum
  · refine .of_settled fun cap ends => ?_
    obtain ⟨pivots, settled, counted⟩ := solve_settled ends
    refine ⟨pivots, settled, fun solution claimed returned optimum => ?_⟩
    unfold Solution.pivots? at optimum
    split at optimum
    next optimal =>
      cases optimum
      exact counted solution returned optimal
    · cases optimum

/-- The corners of a triangle, the first two of which Bland's rule passes in phase two. -/
def corners : Problem Float Float where
  names := ["x", "y", "z"]
  objective := ⟨[3, 2, 1], .minimize⟩
  constraints := [⟨"a", [1, 1, 1], .eq, 1⟩]
  bounds := [.nonNegative, .nonNegative, .nonNegative]

theorem limit_only_cuts_corners :
    ∃ solution, ((Solver.capped ⟨0, 1e-9, .bland⟩ 5).solveStandard corners).result =
        .ok (.optimal solution) ∧ solution.iterations = ⟨1, 2⟩ ∧
      (∀ room, 2 ≤ room → ((Solver.capped ⟨0, 1e-9, .bland⟩ room).solveStandard corners).result =
        .ok (.optimal solution)) ∧
      ((Solver.capped ⟨0, 1e-9, .bland⟩ 1).solveStandard corners).result =
        .error (.failure (.iterationLimit .two 1)) ∧
      ((Solver.capped ⟨0, 1e-9, .bland⟩ 0).solveStandard corners).result =
        .error (.failure (.iterationLimit .one 0)) := by
  have solved : ((Solver.capped ⟨0, 1e-9, .bland⟩ 5).solveStandard corners).result.toOption.bind
      Outcome.pivots? = some ⟨1, 2⟩ := by decide +kernel
  obtain ⟨solution, returned, counted⟩ := Outcome.exists_of_pivots? solved
  have cut := (limit_only_cuts ⟨0, 1e-9, .bland⟩ corners).1.optimal 5 _ ⟨1, 2⟩ returned
    (by rw [Outcome.pivots?, counted])
  refine ⟨solution, returned, counted, fun room fits => ?_, ?_, ?_⟩
  · rw [(cut room).1 fits, returned]
  · exact (cut 1).2.2 (by decide) (by decide)
  · exact (cut 0).2.1 (by decide)

end Solver

end LinOpt
