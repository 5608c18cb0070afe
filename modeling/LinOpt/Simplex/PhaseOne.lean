import LinOpt.Simplex.Run

/-!
# Phase one

The auxiliary program starts from its artificial columns, which form an identity matrix. Its
optimum says whether the system has a solution. Artificial columns that are still basic then leave
for columns of the program, and where no column can take the place of one, its row depends on the
other rows and is dropped.
-/

namespace LinOpt.Simplex

variable {α : Type} [Scalar α]

inductive PhaseOne (α : Type) where
  /-- A basis of program columns for the rows that remain. -/
  | feasible (basis rows : List Nat) (iterations : Nat)
  | infeasible
  | unbounded (ray : UnboundedRay α)
  deriving Repr

/-- The first program column outside the basis that has an entry in a row of the inverse basis. It
can take the place of the basic column of that row. Artificial columns are those below `m`. -/
def replacement? (tolerance : α) (program : Program α) (m : Nat) (basis : List Nat)
    (inverseRow : List α) : Option Nat :=
  ((List.range program.numColumns).drop m).find? fun j =>
    !basis.contains j && decide (tolerance < Scalar.abs (program.columnDot inverseRow j))

/-- Removes the artificial columns from the basis `kept ++ pending`, of which `kept` has none left.
Returns the basis and the rows that remain. -/
def removeArtificials (tolerance : α) (auxiliary : Program α) (m iterations : Nat) :
    (rows kept pending : List Nat) → Logged (Event α) Failure (List Nat × List Nat)
  | rows, kept, [] => pure (kept, rows)
  | rows, kept, column :: pending =>
    if m ≤ column then
      removeArtificials tolerance auxiliary m iterations rows (kept ++ [column]) pending
    else
      let basis := kept ++ column :: pending
      let remaining := auxiliary.restrict rows
      match Dense.invert (remaining.basisMatrix basis) with
      | none => do
        Logged.emit .singularRemoval
        Logged.fail (.singularBasis .one iterations)
      | some inverse =>
        match replacement? tolerance remaining m basis (inverse.getD kept.length []) with
        | some j => do
          Logged.emit (.artificialReplaced column (j - m))
          removeArtificials tolerance auxiliary m iterations rows (kept ++ [j]) pending
        | none =>
          if rows.contains column then do
            Logged.emit (.rowDropped column)
            removeArtificials tolerance auxiliary m iterations (rows.erase column) kept pending
          else Logged.fail (.artificialWithoutRow column)

/-- The largest infeasibility that rounding can explain: the tolerance times one more than the
largest right side. -/
def infeasibilityLimit (tolerance : α) (rhs : List α) : α :=
  tolerance * (1 + rhs.foldl (fun largest b => Scalar.larger largest (Scalar.abs b)) 0)

/-- Finds a feasible basis of the columns of a program, or finds that there is none. -/
def phaseOne (solver : Solver α) (program : Program α) :
    Logged (Event α) Failure (PhaseOne α) := do
  let m := program.rows.length
  let auxiliary := program.auxiliary
  match ← run solver auxiliary .one (List.range m) with
  | .unbounded basis entering direction => pure (.unbounded ⟨.one, entering, basis, direction⟩)
  | .optimal basis values iterations =>
    let infeasibility := Scalar.sum (values.take m)
    if infeasibilityLimit solver.tolerance program.rhs < infeasibility then
      Logged.emit (.phaseOneInfeasible infeasibility)
      pure .infeasible
    else
      Logged.emit (.phaseOneFeasible iterations)
      let (columns, rows) ←
        removeArtificials solver.tolerance auxiliary m iterations (List.range m) [] basis
      pure (.feasible (columns.map (· - m)) rows iterations)

end LinOpt.Simplex
