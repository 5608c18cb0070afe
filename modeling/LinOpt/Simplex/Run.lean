import LinOpt.Event
import LinOpt.Logged
import LinOpt.Simplex.Iterate

/-!
# Runs of the simplex method

A run repeats the iteration until a basis is optimal or shows an unbounded direction. It makes at
most as many pivots as its limit allows; the basis after the last pivot is still evaluated.
-/

namespace LinOpt

/-- Why a run has to give up. -/
inductive Failure where
  | singularBasis (phase : Phase) (iteration : Nat)
  | iterationLimit (phase : Phase) (limit : Nat)
  /-- An artificial column is basic although its row has been dropped. -/
  | artificialWithoutRow (artificial : Nat)
  deriving Repr, DecidableEq

namespace Failure

def message : Failure → String
  | .singularBasis phase iteration =>
    s!"Basis matrix is singular in phase {phase.text} at iteration {iteration}"
  | .iterationLimit phase limit => s!"Iteration limit of {limit} reached in phase {phase.text}"
  | .artificialWithoutRow artificial => s!"basic artificial {artificial} has no remaining row"

end Failure

/-- How the simplex method is run. -/
structure Solver (α : Type) where
  /-- The most pivots in each phase. -/
  maxIterations : Nat
  /-- What is at most this far from zero counts as zero. -/
  tolerance : α
  pricing : PricingRule
  deriving Repr

namespace Solver

variable {α : Type} [Scalar α]

def standard : Solver α := ⟨10000, Scalar.ofDecimal 1 (-9), .dantzig⟩

end Solver

namespace Simplex

/-- The end of a run, with the basis that was reached. -/
inductive Run (α : Type) where
  | optimal (basis : List Nat) (values : List α) (iterations : Nat)
  | unbounded (basis : List Nat) (entering : Nat) (direction : List α)
  deriving Repr

variable {α : Type} [Scalar α]

/-- The values of all columns when those of the basic ones are given: zero outside the basis, and
zero in place of a value that is not positive. -/
def scatter (numColumns : Nat) (basis : List Nat) (values : List α) : List α :=
  (List.range numColumns).map fun j => match (basis.zip values).lookup j with
    | some value => if value ≤ 0 then 0 else value
    | none => 0

/-- Goes on from a basis after `iteration` pivots, with `remaining` pivots left. -/
def runFrom (solver : Solver α) (program : Program α) (phase : Phase) :
    (remaining iteration : Nat) → (basis : List Nat) → Logged (Event α) Failure (Run α)
  | remaining, iteration, basis =>
    match iterate solver.pricing solver.tolerance program basis with
    | none => do
      Logged.emit (.singularBasis basis phase)
      Logged.fail (.singularBasis phase iteration)
    | some ⟨values, _, .optimal⟩ =>
      pure (.optimal basis (scatter program.numColumns basis values) iteration)
    | some ⟨_, _, .unbounded entering direction⟩ => pure (.unbounded basis entering direction)
    | some ⟨_, _, .pivot entering row⟩ =>
      match remaining with
      | 0 => do
        Logged.emit (.limitReached phase solver.maxIterations)
        Logged.fail (.iterationLimit phase solver.maxIterations)
      | remaining + 1 => do
        Logged.emit (.pivoted phase iteration entering (basis.getD row 0))
        runFrom solver program phase remaining (iteration + 1) (basis.set row entering)

def run (solver : Solver α) (program : Program α) (phase : Phase) (basis : List Nat) :
    Logged (Event α) Failure (Run α) :=
  runFrom solver program phase solver.maxIterations 0 basis

end Simplex

end LinOpt
