import LinOpt.Simplex.PhaseOne
import LinOpt.StandardForm

/-!
# The two-phase simplex method

`Solver.solveStandard` takes a problem in standard form through both phases. `Solver.solve` brings
any problem into standard form first, and reads the outcome as values of the given variables and
as an objective in the given sense.
-/

namespace LinOpt

inductive Status where
  | optimal
  | infeasible
  | unbounded
  deriving Repr, DecidableEq

/-- The answer for a problem in the form in which it was given. -/
structure Solution (β α : Type) where
  status : Status
  /-- The values of the variables, if the status is optimal. -/
  values : List α
  objectiveValue : β
  /-- The names of the columns in the final basis. -/
  basicVariables : List String
  iterations : Iterations
  deriving Repr

inductive SolveError (β : Type) where
  | notStandardForm
  | problem (error : ProblemError)
  | normalize (error : NormalizeError β)
  | failure (reason : Failure)
  deriving Repr

def Status.text : Status → String
  | .optimal => "OPTIMAL"
  | .infeasible => "INFEASIBLE"
  | .unbounded => "UNBOUNDED"

namespace NormalizeError

def message : NormalizeError Float → String
  | .malformedBounds name bounds =>
    "Variable " ++ name ++ " has unsupported bounds [" ++ Layout.plain.text bounds.lower ++ ", "
      ++ Layout.plain.text bounds.upper ++ "]"
  | .problem error => error.message

end NormalizeError

namespace SolveError

def message : SolveError Float → String
  | .notStandardForm => "Problem is not in standard form"
  | .problem error => error.message
  | .normalize error => error.message
  | .failure reason => reason.message

end SolveError

variable {α β : Type} [Scalar α] [Endpoint β α]

namespace Solution

/-- No feasible point: the objective is the worst one there is, infinity when it is minimized. -/
def infeasible (goal : Goal) : Solution β α :=
  ⟨.infeasible, [], Endpoint.infinity (goal == .maximize), [], .none⟩

/-- The objective improves without limit, to minus infinity when it is minimized. -/
def unbounded (goal : Goal) : Solution β α :=
  ⟨.unbounded, [], Endpoint.infinity (goal == .minimize), [], .none⟩

def isOptimal (solution : Solution β α) : Bool := solution.status == .optimal

/-- Reads an optimal basic solution of the standard form as one of the given problem. -/
def ofBasic (form : StandardForm α β) (basic : BasicSolution α) : Solution β α :=
  let values := form.recover basic.values
  { status := .optimal
    values := values
    objectiveValue := Endpoint.ofScalar (form.givenObjective values)
    basicVariables := basic.basis.map fun j => form.problem.names.getD j ""
    iterations := basic.iterations }

def ofOutcome (form : StandardForm α β) (goal : Goal) : Outcome α → Solution β α
  | .optimal basic => ofBasic form basic
  | .infeasible => infeasible goal
  | .unbounded _ => unbounded goal

end Solution

namespace Solver

/-- Phase two: optimizes from a feasible basis on the rows that remain. -/
def phaseTwo (solver : Solver α) (problem : Problem α β) (basis rows : List Nat)
    (phaseOneIterations : Nat) : Logged (Event α) Failure (Outcome α) := do
  let program := Simplex.Program.ofProblem problem
  match ← Simplex.run solver (program.restrict rows) .two basis with
  | .optimal basis values iterations =>
    Logged.emit (.phaseTwoOptimal iterations)
    pure (.optimal
      { basis := basis
        values := values
        objectiveValue := problem.objectiveValue basis values
        droppedRows := (List.range program.rows.length).filter (!rows.contains ·)
        iterations := ⟨phaseOneIterations, iterations⟩ })
  | .unbounded basis entering direction =>
    Logged.emit (.phaseTwoUnbounded entering)
    pure (.unbounded ⟨.two, entering, basis, direction⟩)

/-- Both phases, on a problem that is known to be in standard form. -/
def solvePhases (solver : Solver α) (problem : Problem α β) :
    Logged (Event α) Failure (Outcome α) := do
  let program := Simplex.Program.ofProblem problem
  Logged.emit (.solving program.rows.length program.numColumns solver.pricing)
  match ← Simplex.phaseOne solver program with
  | .infeasible => pure .infeasible
  | .unbounded ray => pure (.unbounded ray)
  | .feasible basis rows iterations => solver.phaseTwo problem basis rows iterations

/-- Solves a problem in standard form. -/
def solveStandard (solver : Solver α) (problem : Problem α β) :
    Logged (Event α) (SolveError β) (Outcome α) := do
  Logged.ofExcept (problem.validate.mapError .problem)
  if problem.isStandardForm then (solver.solvePhases problem).mapError .failure
  else Logged.fail .notStandardForm

/-- Solves a problem in any form. -/
def solve (solver : Solver α) (problem : Problem α β) :
    Logged (Event α) (SolveError β) (Solution β α) := do
  let form ← problem.normalize.mapError .normalize
  let outcome ← solver.solveStandard form.problem
  return .ofOutcome form problem.objective.goal outcome

end Solver

end LinOpt
